import Colloquy.Dialog.Basic

/-!
# Components

A component hosts a stack of its own over a set of dialogs. It begins its initial
dialog there, passes turns on to it, and ends when that stack has finished. When it
is cancelled, the frames it hosts end before it.
-/
namespace Colloquy

structure Component where
  id : String
  initial : String
  dialogs : DialogSet
  tags : List String := []

namespace Component

/-- Runs a program in the hosted context, which a component cannot do without. -/
def hosted (body : Program α) : Program α := do
  match ← Program.inChild body with
  | some x => return x
  | none => Program.fail .detached

/-- Ends the component once the hosted stack is empty or completed. -/
def settle (hosted : TurnResult) : Program TurnResult :=
  match hosted.status with
  | .waiting | .cancelled => return hosted
  | .empty | .completed => Program.finish hosted.result

def begin (c : Component) (options : Option Json) : Program TurnResult := do
  settle (← hosted (Program.begin c.initial options))

def advance : Program TurnResult := do settle (← hosted Program.advance)

def reprompt : Program Unit := do
  let _ ← Program.inChild Program.reprompt

def resume : Program TurnResult := do
  reprompt
  return .waiting

def close (reason : Reason) : Program Unit := do
  if reason = .cancelled then
    let _ ← Program.inChild (Program.run (.clear reason))

def dialog (c : Component) : Dialog where
  id := c.id
  kind := .container
  tags := c.tags
  children := some c.dialogs
  onBegin := c.begin
  onContinue := advance
  onResume _ _ := resume
  onReprompt := reprompt
  onClose := close

end Component
end Colloquy
