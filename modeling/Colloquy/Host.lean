import Colloquy.Engine
import Colloquy.Store

/-!
# Handling a turn

One activity from the stored snapshot to the next: the running dialogs are offered
it as an event, then the stack goes on, or the root dialog begins when nothing was
running. Nothing is kept of a turn that fails.
-/
namespace Colloquy

/-- What turns need besides the activity: the dialogs, the one to begin with, the
settings and the time. -/
structure Host where
  dialogs : DialogSet
  root : String
  settings : Object := .empty
  now : Instant := ⟨0, 0⟩

/-- What a turn produced. -/
structure Outcome where
  status : Status
  result : Option Json
  replies : List Activity

/-- A turn between loading and saving: its outcome and the snapshot to keep, or the
fault, and the journal. -/
structure Answer where
  outcome : Except Fault (Outcome × Snapshot)
  journal : List Entry := []

namespace Host

def view (h : Host) : View := { own := h.dialogs }

/-- A dialog that handles the event has used the turn up, even if it emptied the stack. -/
def runStack (h : Host) (fuel : Nat) (activity : Json) : Eval TurnResult := do
  let caller := Engine.call fuel
  if 0 < (← Eval.turn).depth 0 then
    let event : Event := { name := Event.activityReceived, value := some activity, bubble := true }
    if ← Engine.emit caller h.view event true then
      return if 0 < (← Eval.turn).depth 0 then .waiting else .cancelled
  let result ← Engine.advance caller h.view
  if result.status = .empty then Engine.begin caller h.view h.root none else return result

def stamped (h : Host) (replies : List Activity) : List Activity :=
  replies.map fun a => { a with timestamp := some h.now }

/-- Runs a turn on a snapshot; `none` for want of fuel. -/
def respond (h : Host) (fuel : Nat) (a : Activity) (stored : Snapshot) : Option Answer :=
  match Turn.start a stored h.settings with
  | .error e => some { outcome := .error e }
  | .ok turn =>
    (h.runStack fuel a.toJson { turn }).map fun (outcome, session) =>
      { journal := session.journal
        outcome := outcome.map fun r =>
          ({ status := r.status, result := r.result, replies := h.stamped session.turn.outbox },
            session.turn.snapshot) }

/-- A whole turn over a store: what it produced, the journal, and what is kept. -/
def handle (h : Host) (fuel : Nat) (store : Store σ) (a : Activity) (kept : σ) :
    Option (Except Fault Outcome × List Entry × σ) :=
  match store.load a.conversation kept with
  | (.error e, kept) => some (.error e, [], kept)
  | (.ok found, kept) =>
    (h.respond fuel a (found.getD {})).map fun answer =>
      match answer.outcome with
      | .error e => (.error e, answer.journal, kept)
      | .ok (outcome, snapshot) =>
        let (saved, kept) := store.save a.conversation snapshot kept
        (saved.map fun _ => outcome, answer.journal, kept)

end Host
end Colloquy
