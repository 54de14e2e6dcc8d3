import Colloquy.Dialog.Component
import Colloquy.Script.Run

/-!
# Dialogs given as data

Definitions of prompts, waterfalls, components and dialogs whose hooks are scripts.
A scripted dialog may host a component, whose hooks stand in for those it does not
give itself. Sets are built from the inside out, and each id is taken once.
-/
namespace Colloquy.Script

/-- What a validator accepts: from some attempt on, a value, or texts of a length. -/
structure Criterion where
  fromAttempt : Option Nat := none
  exactly : Option Json := none
  minLength : Option Nat := none
  maxLength : Option Nat := none

/-- What a scripted dialog does with events of a name or about a text. -/
structure Reaction where
  event : Option String := none
  text : Option Json := none
  actions : List Action := []
  handled : Bool := false

/-- The scripts of a dialog's hooks. A hook that is missing is not an empty one. -/
structure Hooks where
  begin : Option (List Action) := none
  advance : Option (List Action) := none
  resume : Option (List Action) := none
  reprompt : Option (List Action) := none
  close : Option (List Action) := none
  before : List Reaction := []
  after : List Reaction := []

/-- The recognizers a prompt can be given. -/
inductive PromptKind where
  | text
  | confirm
  | payload
  | unavailable (message : String)

/-- How a dialog behaves, apart from the dialogs it hosts. -/
inductive Behaviour where
  | prompt (kind : PromptKind) (criterion : Option Criterion)
  | waterfall (steps : List (List Action))
  | component (initial : String)
  | scripted (kind : Option Kind) (hooks : Hooks) (initial : Option String) (hosts : Bool)

structure Definition where
  id : String
  /-- The id it is registered under. -/
  key : String
  tags : List String
  inputs : List InputBinding
  output : Option String
  behaviour : Behaviour
  dialogs : List Definition

/-! ## Reading -/

def naturalField? (v : Json) (key : String) : Option Nat := (v.field? key).bind Json.natural?

def textField? (v : Json) (key : String) : Option String := (v.field? key).bind Json.string?

def Criterion.ofJson (v : Json) : Criterion :=
  { fromAttempt := naturalField? v "from", exactly := v.field? "is"
    minLength := naturalField? v "min", maxLength := naturalField? v "max" }

def Reaction.ofJson (v : Json) : Reaction :=
  { event := textField? v "event", text := v.field? "text"
    actions := (actionsField? v "actions").getD [], handled := flagField v "handled" }

def Hooks.ofJson (v : Json) : Hooks :=
  { begin := actionsField? v "begin"
    advance := actionsField? v "continue"
    resume := actionsField? v "resume"
    reprompt := actionsField? v "reprompt"
    close := actionsField? v "end"
    before := (listField v "pre").map Reaction.ofJson
    after := (listField v "post").map Reaction.ofJson }

def kindOfName? : String → Option Kind
  | "leaf" => some .leaf
  | "waterfall" => some .waterfall
  | "container" => some .container
  | "command" => some .command
  | _ => none

def bindingOfJson (v : Json) : InputBinding :=
  match (v.array?.getD []).map fun part => part.string?.getD "" with
  | target :: source :: _ => { target, source }
  | [target] => { target, source := "" }
  | [] => { target := "", source := "" }

def Behaviour.ofJson (v : Json) : Behaviour :=
  let criterion := (v.field? "validator").map Criterion.ofJson
  let prompt (kind : PromptKind) := Behaviour.prompt kind criterion
  match textField? v "type" with
  | some "text" => prompt .text
  | some "confirm" => prompt .confirm
  | some "payload" => prompt .payload
  | some "unavailable" => prompt (.unavailable (textField v "message"))
  | some "waterfall" =>
    .waterfall ((listField v "steps").map fun step => Action.listOfJson (step.array?.getD []))
  | some "component" => .component (textField v "initial")
  | _ =>
    .scripted ((textField? v "kind").bind kindOfName?) (Hooks.ofJson v) (textField? v "initial")
      (v.field? "dialogs").isSome

mutual
def Definition.ofJson : Json → Definition
  | .object ⟨entries⟩ =>
    let v := Json.object ⟨entries⟩
    { id := textField v "id"
      key := (textField? v "as").getD (textField v "id")
      tags := textsField v "tags"
      inputs := (listField v "inputs").map bindingOfJson
      output := textField? v "output"
      behaviour := Behaviour.ofJson v
      dialogs := dialogsOf entries }
  | _ =>
    { id := "", key := "", tags := [], inputs := [], output := none
      behaviour := .scripted none {} none false, dialogs := [] }

/-- The definitions listed among an object's fields. -/
def dialogsOf : List (String × Json) → List Definition
  | [] => []
  | (k, .array items) :: rest =>
    if k = "dialogs" then Definition.listOfJson items else dialogsOf rest
  | (k, _) :: rest => if k = "dialogs" then [] else dialogsOf rest

def Definition.listOfJson : List Json → List Definition
  | [] => []
  | v :: rest => Definition.ofJson v :: Definition.listOfJson rest
end

/-! ## Building -/

def Criterion.accepts (c : Criterion) (trial : Trial) : Bool :=
  c.fromAttempt.any (fun n => n ≤ trial.attempt)
    || c.exactly.any (fun v => trial.recognized == v)
    || match c.minLength, trial.recognized with
      | some least, .string s =>
        least ≤ s.length && c.maxLength.all (fun most => s.length ≤ most)
      | _, _ => false

/-- A validator that notes every trial. -/
def Criterion.judge (c : Criterion) (id : String) (trial : Trial) : Verdict :=
  let accepted := c.accepts trial
  { accepted
    notes := [.ofFields [("validator", .string id), ("recognized", trial.recognized),
      ("attempt", .nat trial.attempt), ("options", trial.options.toJson),
      ("ok", .bool accepted)]] }

def PromptKind.recognizer : PromptKind → Recognizer
  | .text => .text
  | .confirm => .confirm
  | .payload => .payload
  | .unavailable message => .unavailable message

def promptOf (id : String) (kind : PromptKind) : Option Criterion → Prompt
  | none => { id, recognize := kind.recognizer }
  | some c => { id, recognize := kind.recognizer, judge := c.judge id }

/-- A step that notes what it is run with before its actions. -/
def stepOf (id : String) (actions : List Action) : Step := fun input => do
  let s ← Program.sight
  Program.record (.ofFields ([("hook", .string (id ++ ":step" ++ toString input.index)),
    ("level", .nat s.level), ("depth", .nat s.depth), ("reason", .string input.reason.name)]
    ++ Json.optional "options" input.options ++ Json.optional "result" input.result))
  runAll (.ofValues [("index", some (.nat input.index)), ("options", input.options),
    ("result", input.result)]) actions

/-- A list that is run for what it does only. -/
def runQuietly (vars : Variables) (actions : List Action) : Program Unit := do
  let _ ← runFrom vars none actions

def Reaction.suits (r : Reaction) (event : Event) : Bool :=
  r.event.all (fun name => name == event.name)
    && r.text.all (fun text => event.value.bind (·.field? "text") == some text)

/-- The first reaction that suits an event decides. -/
def react (reactions : List Reaction) (event : Event) : Program Bool :=
  match reactions.find? (·.suits event) with
  | none => return false
  | some r => do
    runQuietly (.ofValues [("event", event.value)]) r.actions
    return r.handled

/-- A script where one is given, and what stands in for it otherwise. -/
def given (hook : Option (List Action)) (script : List Action → Program α)
    (otherwise : Program α) : Program α :=
  match hook with
  | some actions => script actions
  | none => otherwise

/-- A dialog whose hooks are scripts, over one that stands in for missing ones. -/
def Hooks.over (hooks : Hooks) (base : Dialog) : Dialog :=
  { base with
    traced := true
    onBegin := fun options =>
      given hooks.begin (runAll (.ofValues [("options", options)])) (base.onBegin options)
    onContinue := given hooks.advance (runAll .empty) base.onContinue
    onResume := fun reason result =>
      given hooks.resume (runAll (.ofValues [("result", result)])) (base.onResume reason result)
    onReprompt := given hooks.reprompt (runQuietly .empty) base.onReprompt
    onClose := fun reason => given hooks.close (runQuietly .empty) (base.onClose reason)
    beforeEvent := react hooks.before
    afterEvent := react hooks.after }

/-- A dialog that waits once begun. -/
def idle (id : String) : Dialog := { id, onBegin := fun _ => return .waiting }

def Behaviour.build (id : String) (set : DialogSet) : Behaviour → Dialog
  | .prompt kind criterion => (promptOf id kind criterion).dialog
  | .waterfall steps => ({ id, steps := steps.map (stepOf id) } : Waterfall).dialog
  | .component initial => ({ id, initial, dialogs := set } : Component).dialog
  | .scripted kind hooks initial hosts =>
    let base := match initial with
      | some initial => ({ id, initial, dialogs := set } : Component).dialog
      | none => { idle id with children := if hosts then some set else none }
    { hooks.over base with kind := kind.getD base.kind }

mutual
def Definition.build : Definition → Except Fault Dialog
  | ⟨id, _, tags, inputs, output, behaviour, dialogs⟩ => do
    let set ← buildOnto .empty dialogs
    return match behaviour with
      | .prompt .. => behaviour.build id set
      | .component .. => { behaviour.build id set with tags }
      | .waterfall .. | .scripted .. => { behaviour.build id set with tags, inputs, output }

/-- Builds definitions one after another and registers them in a set. -/
def buildOnto (set : DialogSet) : List Definition → Except Fault DialogSet
  | [] => .ok set
  | d :: rest => do
    let dialog ← Definition.build d
    buildOnto (← DialogSet.register set d.key dialog) rest
end

def dialogSet (definitions : List Definition) : Except Fault DialogSet :=
  buildOnto .empty definitions

end Colloquy.Script
