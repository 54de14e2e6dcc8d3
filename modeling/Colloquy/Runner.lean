import Colloquy.Host

/-!
# Running turns side by side

Turns of one conversation follow one another, first come first served; turns of
different conversations overlap. A register names the gate of each conversation with
a turn under way; the turns themselves hold on to it, and it is struck off when the
last of them lets go. A turn passes its gate by three steps, loading, running the
dialogs and saving, and may be dropped before any of them.
-/
namespace Colloquy

/-- Who is inside, and who waits in which order. -/
structure Gate where
  holder : Option Nat := none
  queue : List Nat := []
  deriving DecidableEq, Repr

namespace Gate

/-- A turn comes: it enters when nobody is inside, and queues otherwise. -/
def join (g : Gate) (ticket : Nat) : Gate :=
  match g.holder with
  | none => { g with holder := some ticket }
  | some _ => { g with queue := g.queue ++ [ticket] }

/-- A turn goes, from inside or from the queue; the first in the queue comes in. -/
def leave (g : Gate) (ticket : Nat) : Gate :=
  if g.holder = some ticket then { holder := g.queue.head?, queue := g.queue.tail }
  else { g with queue := g.queue.erase ticket }

end Gate

/-- The step a turn takes next. -/
inductive Stage where
  | loading
  | running (stored : Snapshot)
  | saving (outcome : Outcome) (snapshot : Snapshot) (journal : List Entry)

/-- A turn under way, and the number of the gate it holds on to. -/
structure Task where
  ticket : Nat
  activity : Activity
  gate : Nat
  stage : Stage := .loading

/-- A turn that came to its end. -/
structure Finished where
  ticket : Nat
  outcome : Except Fault Outcome
  journal : List Entry

/-- The turns under way, every gate ever opened, the gate of each conversation, and the
store's contents. -/
structure Progress (σ : Type) where
  kept : σ
  gates : List Gate := []
  register : Table Nat := .empty
  tasks : List Task := []
  finished : List Finished := []
  tickets : Nat := 0

/-- How turns are run: the host, the fuel of each, the store, and whether loading
suspends after it and saving before it. -/
structure Runner (σ : Type) where
  host : Host
  fuel : Nat
  store : Store σ
  suspends : Bool := false

namespace Progress

/-- Conversations with a turn under way or waiting. -/
def activeConversations (p : Progress σ) : Nat := p.register.size

def task? (p : Progress σ) (ticket : Nat) : Option Task :=
  p.tasks.find? (fun task => task.ticket == ticket)

def isInside (p : Progress σ) (task : Task) : Bool :=
  (p.gates[task.gate]?.bind Gate.holder) == some task.ticket

def setStage (p : Progress σ) (ticket : Nat) (stage : Stage) : Progress σ :=
  { p with tasks := p.tasks.map fun t => if t.ticket = ticket then { t with stage } else t }

/-- A turn leaves its gate and lets go of it. The gate its conversation then has is
struck off the register when no turn holds on to it. -/
def release (p : Progress σ) (task : Task) : Progress σ :=
  let key := task.activity.conversation
  let tasks := p.tasks.filter fun t => t.ticket ≠ task.ticket
  let register := match p.register.find? key with
    | none => p.register
    | some g => if tasks.any (fun t => t.gate = g) then p.register else p.register.erase key
  { p with tasks, register, gates := p.gates.modify task.gate (·.leave task.ticket) }

def finish (p : Progress σ) (task : Task) (outcome : Except Fault Outcome)
    (journal : List Entry) : Progress σ :=
  let p := p.release task
  { p with finished := p.finished ++ [{ ticket := task.ticket, outcome, journal }] }

def outcome? (p : Progress σ) (ticket : Nat) : Option Finished :=
  p.finished.find? (fun f => f.ticket == ticket)

/-- Drops a turn that is under way or waiting. -/
def abandon (p : Progress σ) (ticket : Nat) : Progress σ :=
  match p.task? ticket with
  | none => p
  | some task => p.release task

/-- The gate of a conversation, which is opened if there is none. -/
def gateOf (p : Progress σ) (conversation : String) : Nat × Progress σ :=
  match p.register.find? conversation with
  | some g => (g, p)
  | none =>
    let g := p.gates.length
    (g, { p with gates := p.gates ++ [{}], register := p.register.insert conversation g })

/-- A turn arrives: it holds on to its conversation's gate and joins it. -/
def arrive (p : Progress σ) (a : Activity) : Nat × Progress σ :=
  let ticket := p.tickets
  let (gate, p) := p.gateOf a.conversation
  (ticket,
    { p with
      tickets := ticket + 1
      gates := p.gates.modify gate (·.join ticket)
      tasks := p.tasks ++ [{ ticket, activity := a, gate }] })

end Progress

namespace Runner

/-- The next step of a turn that is inside its gate. A turn without fuel stays where it is. -/
def step (r : Runner σ) (ticket : Nat) (p : Progress σ) : Progress σ :=
  match p.task? ticket with
  | none => p
  | some task =>
    if !p.isInside task then p
    else match task.stage with
      | .loading =>
        match r.store.load task.activity.conversation p.kept with
        | (.error e, kept) => { p with kept }.finish task (.error e) []
        | (.ok found, kept) => { p with kept }.setStage ticket (.running (found.getD {}))
      | .running stored =>
        match r.host.respond r.fuel task.activity stored with
        | none => p
        | some answer =>
          match answer.outcome with
          | .error e => p.finish task (.error e) answer.journal
          | .ok (outcome, snapshot) =>
            p.setStage ticket (.saving outcome snapshot answer.journal)
      | .saving outcome snapshot journal =>
        let (saved, kept) := r.store.save task.activity.conversation snapshot p.kept
        { p with kept }.finish task (saved.map fun _ => outcome) journal

/-- Lets a turn go on until it suspends or ends. -/
def poll (r : Runner σ) (ticket : Nat) (p : Progress σ) : Progress σ :=
  if r.suspends then r.step ticket p
  else r.step ticket (r.step ticket (r.step ticket p))

/-- Starts a turn and lets it go on for the first time. -/
def start (r : Runner σ) (a : Activity) (p : Progress σ) : Nat × Progress σ :=
  let (ticket, p) := p.arrive a
  (ticket, r.poll ticket p)

/-- Polls the turns under way, each in its turn, for a number of rounds. -/
def rounds (r : Runner σ) : Nat → Progress σ → Progress σ
  | 0, p => p
  | n + 1, p => rounds r n (p.tasks.foldl (fun p task => r.poll task.ticket p) p)

/-- Polls until every turn has ended: each round moves a turn of every conversation,
and a turn has three steps. -/
def settle (r : Runner σ) (p : Progress σ) : Progress σ := r.rounds (3 * p.tasks.length) p

/-- Starts turns together and runs them to their ends. -/
def runAll (r : Runner σ) (activities : List Activity) (p : Progress σ) :
    List Nat × Progress σ :=
  let (tickets, p) := activities.foldl
    (fun (tickets, p) a =>
      let (ticket, p) := r.start a p
      (tickets ++ [ticket], p))
    ([], p)
  (tickets, r.settle p)

/-- Runs one turn to its end. -/
def runTurn (r : Runner σ) (a : Activity) (p : Progress σ) : Nat × Progress σ :=
  let (ticket, p) := r.start a p
  (ticket, r.settle p)

end Runner
end Colloquy
