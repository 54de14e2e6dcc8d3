import Colloquy.Dialog.Prompt

/-!
# Actions of scripts

A script is a list of actions given as data. An action does one thing in the
context it runs in; some take an argument, written out or read from a variable or
a state path. Missing texts are empty, missing lists too, and missing flags are
off.
-/
namespace Colloquy.Script

/-- Where an action's argument comes from. -/
inductive Argument where
  | absent
  | given (value : Json)
  | variable (name : String)
  | path (text : String)

/-- The shape a value is read as. -/
inductive Shape where
  | string
  | natural
  | bool
  | strings
  | object
  deriving DecidableEq, Repr

/-- How an action fails on purpose. -/
inductive Failure where
  | infrastructure
  | invalidArgument
  | collaborator
  deriving DecidableEq, Repr

/-- What an action does without a list of its own. -/
inductive Deed where
  | begin (id : String) (options : Argument)
  | replace (id : String) (options : Argument)
  | prompt (id : String) (options : PromptOptions)
  | advance
  | reprompt
  | finish (result : Argument)
  | cancel (event : String) (value : Argument)
  | answer (status : String) (result : Argument)
  | next (result : Argument)
  | save (key : String) (value : Argument)
  | values
  | clear (reason : Reason)
  | emit (name : String) (value : Argument) (bubble fromLeaf : Bool)
  | fail (how : Failure) (message : String)
  | get (path : String)
  | getAs (path : String) (shape : Shape)
  | set (path : String) (value : Argument)
  | delete (path : String)
  | add (path : String) (amount : Int)
  | send (text : String) (rest : Argument)
  | sendActivity (activity : Json)
  | takeReplies
  | tags
  | globalTags (tags : List String)
  | find (id : String)
  | info
  | memory
  | nothing

/-- An action: its name in transcripts, whether its failure is put up with, and what
it does. -/
inductive Action where
  | plain (name : String) (tolerant : Bool) (deed : Deed)
  | within (name : String) (tolerant : Bool) (place : Place) (actions : List Action)
  | branch (name : String) (tolerant : Bool) (subject : Argument) (expected : Option Json)
      (hit miss : List Action)

/-! ## Reading -/

def textField (v : Json) (key : String) : String := ((v.field? key).bind Json.string?).getD ""

def flagField (v : Json) (key : String) : Bool := ((v.field? key).bind Json.bool?).getD false

def listField (v : Json) (key : String) : List Json := ((v.field? key).bind Json.array?).getD []

def textsField (v : Json) (key : String) : List String :=
  (listField v key).filterMap Json.string?

def Argument.ofJson (v : Json) : Argument :=
  match v.field? "value" with
  | some value => .given value
  | none =>
    match (v.field? "from").bind Json.string? with
    | none => .absent
    | some source =>
      match source.toList with
      | '@' :: name => .variable (String.ofList name)
      | _ => .path source

def Shape.ofName : String → Shape
  | "u64" => .natural
  | "bool" => .bool
  | "strings" => .strings
  | "object" => .object
  | _ => .string

def Failure.ofName : String → Failure
  | "Infrastructure" => .infrastructure
  | "InvalidArgument" => .invalidArgument
  | _ => .collaborator

/-- The deed of a name; a name without one does nothing. -/
def Deed.ofJson (name : String) (v : Json) : Deed :=
  let argument := Argument.ofJson v
  let text := textField v
  match name with
  | "begin" => .begin (text "id") argument
  | "replace" => .replace (text "id") argument
  | "prompt" =>
    .prompt (text "id")
      { prompt := text "prompt", retry := (v.field? "retry").bind Json.string? }
  | "continue" => .advance
  | "reprompt" => .reprompt
  | "end" => .finish argument
  | "cancel" => .cancel (text "event") argument
  | "return" => .answer (text "status") argument
  | "next" => .next argument
  | "save" => .save (text "key") argument
  | "values" => .values
  | "endLocal" => .clear ((Reason.ofName? (text "reason")).getD .ended)
  | "emit" => .emit (text "name") argument (flagField v "bubble") (flagField v "fromLeaf")
  | "fail" => .fail (Failure.ofName (text "kind")) (text "message")
  | "get" => .get (text "path")
  | "getAs" => .getAs (text "path") (Shape.ofName (text "type"))
  | "set" => .set (text "path") argument
  | "delete" => .delete (text "path")
  | "add" => .add (text "path") (((v.field? "by").bind Json.signed?).getD 1)
  | "send" => .send (text "text") argument
  | "sendActivity" => .sendActivity (Json.orNull (v.field? "activity"))
  | "takeReplies" => .takeReplies
  | "tags" => .tags
  | "globalTags" => .globalTags (textsField v "tags")
  | "find" => .find (text "id")
  | "info" => .info
  | "memory" => .memory
  | _ => .nothing

mutual
def Action.ofJson : Json → Action
  | .object ⟨entries⟩ =>
    let v := Json.object ⟨entries⟩
    let name := textField v "do"
    let tolerant := flagField v "try"
    let actions := listOf "actions" entries
    let hit := listOf "then" entries
    let miss := listOf "else" entries
    match name with
    | "child" => .within name tolerant .child actions
    | "parent" => .within name tolerant .parent actions
    | "if" => .branch name tolerant (Argument.ofJson v) (v.field? "is") hit miss
    | _ => .plain name tolerant (Deed.ofJson name v)
  | _ => .plain "" false .nothing

/-- The actions listed in an object's field. -/
def listOf (key : String) : List (String × Json) → List Action
  | [] => []
  | (k, .array items) :: rest => if k = key then Action.listOfJson items else listOf key rest
  | (k, _) :: rest => if k = key then [] else listOf key rest

def Action.listOfJson : List Json → List Action
  | [] => []
  | v :: rest => Action.ofJson v :: Action.listOfJson rest
end

/-- The actions of an optional field, which may be present and empty. -/
def actionsField? (v : Json) (key : String) : Option (List Action) :=
  (v.field? key).bind fun part => part.array?.map Action.listOfJson

end Colloquy.Script
