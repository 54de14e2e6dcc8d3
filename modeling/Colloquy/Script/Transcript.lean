import Colloquy.Engine

/-!
# Transcripts

How results, faults and the journal are written down. Transcripts show the hook
calls of traced dialogs and whatever was noted.
-/
namespace Colloquy

namespace Fault

def kindName : Fault → String
  | .emptyDialogId => "EmptyDialogId"
  | .dialogNotFound _ => "DialogNotFound"
  | .unregistered _ _ => "UnregisteredDialog"
  | .duplicateId _ => "DuplicateId"
  | .readOnly _ => "ReadOnlyScope"
  | .invalidPath _ => "InvalidPath"
  | .invalidArgument _ => "InvalidArgument"
  | .detached => "DetachedContext"
  | .malformed => "Serialization"
  | .infrastructure _ => "Infrastructure"
  | .collaborator _ => "Collaborator"

/-- A malformed value is reported without a message. -/
def fields (e : Fault) : List (String × Json) :=
  ("error", .string e.kindName) ::
    match e with
    | .malformed => []
    | _ => [("message", .string e.message)]

def toJson (e : Fault) : Json := .ofFields e.fields

end Fault

namespace TurnResult

def toJson (r : TurnResult) : Json :=
  .ofFields (("status", .string r.status.name) :: Json.optional "result" r.result)

end TurnResult

namespace Kind

def name : Kind → String
  | .leaf => "Leaf"
  | .waterfall => "Waterfall"
  | .container => "Container"
  | .command => "Command"

end Kind

namespace Event

def toJson (e : Event) : Json :=
  .ofFields ([("name", .string e.name), ("bubble", .bool e.bubble)]
    ++ Json.optional "value" e.value)

end Event

namespace Hook

def name : Hook → String
  | .begin _ => "begin"
  | .advance => "continue"
  | .resume _ _ => "resume"
  | .reprompt => "reprompt"
  | .close _ => "end"
  | .before _ => "pre"
  | .after _ => "post"

/-- What a hook was called with. -/
def details : Hook → List (String × Json)
  | .begin options => Json.optional "options" options
  | .advance | .reprompt => []
  | .resume reason result => ("reason", .string reason.name) :: Json.optional "result" result
  | .close reason => [("reason", .string reason.name)]
  | .before event | .after event => [("event", event.toJson)]

end Hook

namespace Entry

/-- How the call of a hook is shown. Only traced dialogs show theirs. -/
def heading (c : HookCall) : List Json :=
  if c.traced then
    [.ofFields ([("hook", .string (c.dialog ++ ":" ++ c.hook.name)),
      ("level", .nat c.level), ("depth", .nat c.depth)] ++ c.hook.details)]
  else []

mutual
/-- A call is shown in front of what happened while it ran. -/
def shown : Entry → List Json
  | .noted content => [content]
  | .called c _ during => heading c ++ shownAll during

def shownAll : List Entry → List Json
  | [] => []
  | entry :: rest => shown entry ++ shownAll rest
end

/-- The transcript of a journal. -/
def transcript (journal : List Entry) : Json := .array (shownAll journal)

end Entry
end Colloquy
