import Colloquy.Main
import Colloquy.Proofs.Cancellation.Run
import Colloquy.Proofs.Library.Turns
import Colloquy.Proofs.Runner.Serial
import Colloquy.Script.Definition
import Colloquy.Proofs.Library.Programs
import Colloquy.Proofs.Library.Obeys
import Colloquy.Proofs.Library.Operations
import Colloquy.Proofs.Library.Hooks
import Colloquy.Proofs.Atomicity
import Colloquy.Proofs.Detachment
import Colloquy.Proofs.Engine.Pushdown
import Colloquy.Proofs.Memory.Placement
import Colloquy.Proofs.Memory.Search
import Colloquy.Proofs.Engine.Invariant
import Colloquy.Proofs.Memory.Sharing
import Colloquy.Proofs.Nesting.Lockstep
import Colloquy.Proofs.Nesting.Packing
import Colloquy.Proofs.Nesting.SelfContained
import Colloquy.Proofs.Nesting.Innermost
import Colloquy.Proofs.Nesting.Layers
import Colloquy.Proofs.Nesting.Transparency
import Colloquy.Proofs.Cancellation.Innermost
import Colloquy.Proofs.Engine.Answers
import Colloquy.Proofs.Demo.Frames
import Colloquy.Proofs.Demo.Prompts
import Colloquy.Proofs.Demo.Profile
import Colloquy.Proofs.Demo.Root
import Colloquy.Proofs.Demo.Turns
import Colloquy.Proofs.Demo.Conversations
import Colloquy.Proofs.Runner.Alone
import Colloquy.Proofs.Demo.Settings
import Colloquy.Proofs.Runner.Register
import Colloquy.Proofs.Memory.Writing
import Colloquy.Proofs.Paths.Laws
import Colloquy.Proofs.Memory.Agreement
import Colloquy.Proofs.Engine.Seeding
import Colloquy.Proofs.Engine.Rollback
import Colloquy.Proofs.Engine.Events
import Colloquy.Proofs.Memory.Held
import Colloquy.Proofs.Engine.Unseeded
import Colloquy.Proofs.Engine.Output
import Colloquy.Proofs.Runs.Stretch
import Colloquy.Proofs.Runs.Endings
import Colloquy.Proofs.Runs.Rounds
import Colloquy.Proofs.Runs.Above
import Colloquy.Proofs.Runs.Steps
import Colloquy.Proofs.Runs.Tale
import Colloquy.Proofs.Runs.Waterfalls
import Colloquy.Proofs.Runs.Prompts
import Colloquy.Proofs.Runs.Passing
import Colloquy.Proofs.Runs.Bindings
import Colloquy.Proofs.Cancellation.Notices
import Colloquy.Proofs.Cancellation.Unwinding
import Colloquy.Proofs.Memory.Nearest
import Colloquy.Proofs.Paths.Grammar
import Colloquy.Proofs.Tags
import Colloquy.Proofs.Settings.Reading
import Colloquy.Proofs.Settings.Keys
