import Colloquy.Json.Basic

/-!
# Snapshots

What is kept of a conversation between turns: an object about the user and one
about the conversation.
-/
namespace Colloquy

structure Snapshot where
  user : Object := .empty
  conversation : Object := .empty

instance : Inhabited Snapshot := ⟨{}⟩

namespace Snapshot

def toJson (s : Snapshot) : Json :=
  .ofFields [("user", .object s.user), ("conversation", .object s.conversation)]

/-- A missing object is empty; anything else that is not an object is refused. -/
def part? (v : Json) (key : String) : Option Object :=
  match v.field? key with
  | none => some .empty
  | some part => part.object?

def ofJson? (v : Json) : Option Snapshot := do
  let v ← v.record? ["user", "conversation"]
  return { user := ← part? v "user", conversation := ← part? v "conversation" }

end Snapshot
end Colloquy
