import Colloquy.Json.Basic

/-!
# What dialogs report and hear

The result of an operation on a stack, the reason a hook is called for, the kinds
of dialogs, and events.
-/
namespace Colloquy

inductive Status where
  | empty
  | waiting
  | completed
  | cancelled
  deriving DecidableEq, Repr

def Status.name : Status → String
  | .empty => "empty"
  | .waiting => "waiting"
  | .completed => "completed"
  | .cancelled => "cancelled"

structure TurnResult where
  status : Status
  result : Option Json := none

namespace TurnResult

def empty : TurnResult := { status := .empty }
def waiting : TurnResult := { status := .waiting }
def completed (result : Option Json) : TurnResult := { status := .completed, result }
def cancelled : TurnResult := { status := .cancelled }

end TurnResult

/-- Why a hook is called. -/
inductive Reason where
  | begun
  | continued
  | ended
  | replaced
  | cancelled
  | advanced
  deriving DecidableEq, Repr

def Reason.name : Reason → String
  | .begun => "BeginCalled"
  | .continued => "ContinueCalled"
  | .ended => "EndCalled"
  | .replaced => "ReplaceCalled"
  | .cancelled => "CancelCalled"
  | .advanced => "NextCalled"

def Reason.ofName? (text : String) : Option Reason :=
  [begun, continued, ended, replaced, cancelled, advanced].find? (fun r => r.name == text)

/-- Commands share the memory of the frame below them. -/
inductive Kind where
  | leaf
  | waterfall
  | container
  | command
  deriving DecidableEq, Repr

structure Event where
  name : String
  value : Option Json := none
  bubble : Bool := false

namespace Event

/-- Offered before the active dialog asks again. -/
def repromptDialog : String := "repromptDialog"

/-- The usual event of a cancellation. -/
def cancelDialog : String := "cancelDialog"

/-- Offered from the innermost running dialog for each activity. -/
def activityReceived : String := "activityReceived"

end Event

/-- Copies a value into the memory of a dialog that is begun. -/
structure InputBinding where
  target : String
  source : String
  deriving DecidableEq, Repr

end Colloquy
