import Colloquy.Scope

/-!
# Faults

The causes for which an operation fails, and their wording.
-/
namespace Colloquy

/-- What was to be done to a frame whose dialog is not registered. -/
inductive Operation where
  | continuing
  | resuming
  | reprompting
  deriving DecidableEq, Repr

def Operation.verb : Operation → String
  | .continuing => "continue"
  | .resuming => "resume"
  | .reprompting => "reprompt"

/-- How an argument can break an operation's contract. -/
inductive Misuse where
  | bindingTarget (target : String)
  | noMemoryHolder
  | promptBegunWithoutOptions (id : String)
  | promptRunsWithoutOptions
  | blankPrompt (id : String)
  | stepAdvancedTwice (index : Nat) (waterfall : String)
  | other (reason : String)
  deriving DecidableEq, Repr

def Misuse.message : Misuse → String
  | .bindingTarget target => "input binding target '" ++ target ++ "' is not a dialog property"
  | .noMemoryHolder => "no active dialog to hold dialog state"
  | .promptBegunWithoutOptions id => "prompt '" ++ id ++ "' requires options"
  | .promptRunsWithoutOptions => "prompt is running without options"
  | .blankPrompt id => "prompt '" ++ id ++ "' needs prompt text"
  | .stepAdvancedTwice index waterfall =>
    "step " ++ toString index ++ " of '" ++ waterfall ++ "' called next twice"
  | .other reason => reason

inductive Fault where
  | emptyDialogId
  | dialogNotFound (id : String)
  | unregistered (id : String) (operation : Operation)
  | duplicateId (id : String)
  | readOnly (scope : Scope)
  | invalidPath (text : String)
  | invalidArgument (misuse : Misuse)
  | detached
  | malformed
  | infrastructure (reason : String)
  | collaborator (reason : String)
  deriving DecidableEq, Repr

def Fault.message : Fault → String
  | .emptyDialogId => "dialog id must not be empty"
  | .dialogNotFound id => "dialog not found: '" ++ id ++ "'"
  | .unregistered id operation =>
    "cannot " ++ operation.verb ++ " dialog '" ++ id ++ "': it is not registered"
  | .duplicateId id => "duplicate dialog id: '" ++ id ++ "'"
  | .readOnly scope => "scope '" ++ scope.name ++ "' is read-only"
  | .invalidPath text => "invalid state path: '" ++ text ++ "'"
  | .invalidArgument misuse => "invalid argument: " ++ misuse.message
  | .detached => "dialog context is detached: its container frame was removed"
  | .malformed => "serialization error"
  | .infrastructure reason => "infrastructure error: " ++ reason
  | .collaborator reason => "collaborator error: " ++ reason

/-- A decoder's answer as a result: a value of the wrong shape is malformed. -/
def Fault.orMalformed : Option α → Except Fault α
  | some value => .ok value
  | none => .error .malformed

end Colloquy
