import Colloquy.Json.Basic
import Colloquy.Time.Timestamp

/-!
# Activities

One exchange in a conversation, inbound or outbound: a message, a named event
or a change of its members.
-/
namespace Colloquy

inductive ActivityKind where
  | message
  | event
  | conversationUpdate
  deriving DecidableEq, Repr

namespace ActivityKind

def name : ActivityKind → String
  | .message => "message"
  | .event => "event"
  | .conversationUpdate => "conversationUpdate"

def ofName? (text : String) : Option ActivityKind :=
  [message, event, conversationUpdate].find? (fun k => k.name == text)

end ActivityKind

structure Activity where
  kind : ActivityKind
  conversation : String
  text : Option String := none
  name : Option String := none
  value : Option Json := none
  timestamp : Option Instant := none

namespace Activity

def message (conversation text : String) : Activity :=
  { kind := .message, conversation, text := some text }

def event (conversation name : String) (value : Option Json) : Activity :=
  { kind := .event, conversation, name := some name, value }

/-- A message in the same conversation. -/
def reply (a : Activity) (text : String) : Activity := message a.conversation text

def isMessage (a : Activity) : Bool := a.kind == .message

def textOrEmpty (a : Activity) : String := a.text.getD ""

/-- Absent parts are left out. -/
def toJson (a : Activity) : Json :=
  .ofFields ([("kind", .string a.kind.name), ("conversationId", .string a.conversation)]
    ++ Json.optional "text" (a.text.map .string)
    ++ Json.optional "name" (a.name.map .string)
    ++ Json.optional "value" a.value
    ++ Json.optional "timestamp" (a.timestamp.map fun t => .string (Timestamp.text t)))

def fieldNames : List String :=
  ["kind", "conversationId", "text", "name", "value", "timestamp"]

def ofJson? (v : Json) : Option Activity := do
  let v ← v.record? fieldNames
  return {
    kind := ← ActivityKind.ofName? (← (← v.field? "kind").caseName?)
    conversation := ← (← v.field? "conversationId").string?
    text := ← v.optional? "text" Json.string?
    name := ← v.optional? "name" Json.string?
    value := v.present? "value"
    timestamp := ← v.optional? "timestamp" fun t => t.string?.bind Timestamp.parse? }

end Activity
end Colloquy
