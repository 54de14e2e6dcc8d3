import Colloquy.Dialog.Program

/-!
# Dialogs

A dialog is a set of hooks, each a program. A dialog that hosts others carries
the set of those that may run on the stack inside its frame.
-/
namespace Colloquy

/-- The moments at which the engine calls a dialog. Events are offered on their way
out of the nested contexts and again on their way back in; which way they go is not for
a dialog to say. -/
inductive Hook where
  | begin (options : Option Json)
  | advance
  | resume (reason : Reason) (result : Option Json)
  | reprompt
  | close (reason : Reason)
  | before (event : Event)
  | after (event : Event)

/-- What a hook answers. -/
abbrev Hook.Reply : Hook → Type
  | .begin _ | .advance | .resume _ _ => TurnResult
  | .reprompt | .close _ => Unit
  | .before _ | .after _ => Bool

/-- A hook that is not given ends the dialog, hands the result on, or does nothing.
Calls of traced dialogs are shown in transcripts. -/
structure Dialog where
  id : String
  kind : Kind := .leaf
  tags : List String := []
  inputs : List InputBinding := []
  output : Option String := none
  children : Option (Table Dialog) := none
  traced : Bool := false
  onBegin : Option Json → Program TurnResult
  onContinue : Program TurnResult := Program.finish none
  onResume : Reason → Option Json → Program TurnResult := fun _ result => Program.finish result
  onReprompt : Program Unit := pure ()
  onClose : Reason → Program Unit := fun _ => pure ()
  beforeEvent : Event → Program Bool := fun _ => pure false
  afterEvent : Event → Program Bool := fun _ => pure false

abbrev DialogSet := Table Dialog

namespace Dialog

def program (d : Dialog) : (hook : Hook) → Program hook.Reply
  | .begin options => d.onBegin options
  | .advance => d.onContinue
  | .resume reason result => d.onResume reason result
  | .reprompt => d.onReprompt
  | .close reason => d.onClose reason
  | .before event => d.beforeEvent event
  | .after event => d.afterEvent event

def description (d : Dialog) : Description :=
  { id := d.id, kind := d.kind, tags := d.tags, hostsDialogs := d.children.isSome }

end Dialog

namespace DialogSet

/-- Registers a dialog under an id that is not taken. -/
def register (set : DialogSet) (id : String) (d : Dialog) : Except Fault DialogSet :=
  if id.isEmpty then .error .emptyDialogId
  else if set.contains id then .error (.duplicateId id)
  else .ok (set.insert id d)

/-- Registers a dialog under its own id. -/
def add (set : DialogSet) (d : Dialog) : Except Fault DialogSet := register set d.id d

end DialogSet
end Colloquy
