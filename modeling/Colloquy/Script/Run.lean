import Colloquy.Dialog.Waterfall
import Colloquy.Json.Printer
import Colloquy.Script.Action
import Colloquy.Script.Transcript

/-!
# Running scripts

A list of actions as a program. Each action notes what came of it, and the first
that fails ends the list unless its failure is put up with. The list's own result
is the last turn result that one of its actions produced.
-/
namespace Colloquy.Script

/-- The variables that a hook's or a step's actions can read. -/
abbrev Variables := Table Json

def Variables.ofValues (values : List (String × Option Json)) : Variables :=
  Table.ofList (values.filterMap fun (name, value) => value.map (name, ·))

def Argument.resolve (vars : Variables) : Argument → Program (Option Json)
  | .absent => return none
  | .given value => return some value
  | .variable name => return vars.find? name
  | .path text => Program.get text

def Shape.fits (shape : Shape) (v : Json) : Bool :=
  match shape with
  | .string => v.string?.isSome
  | .natural => v.natural?.isSome
  | .bool => v.bool?.isSome
  | .strings => v.strings?.isSome
  | .object => v.object?.isSome

def Failure.fault (message : String) : Failure → Fault
  | .infrastructure => .infrastructure message
  | .invalidArgument => .invalidArgument (.other message)
  | .collaborator => .collaborator message

/-- The turn result of a name; only a completed one carries a value. -/
def turnResult (status : String) (result : Option Json) : TurnResult :=
  match status with
  | "empty" => .empty
  | "completed" => .completed result
  | "cancelled" => .cancelled
  | _ => .waiting

/-- A value put behind a text: strings as they are, others as compact JSON. -/
def appended : Option Json → String
  | none => ""
  | some (.string s) => s
  | some v => v.compact

def described (d : Description) : Json :=
  .ofFields [("id", .string d.id), ("kind", .string d.kind.name), ("tags", .strings d.tags),
    ("container", .bool d.hostsDialogs)]

/-- All that can be seen of a context. -/
def Sight.info (s : Sight) : Json :=
  .ofFields [
    ("level", .nat s.level),
    ("hasParent", .bool (0 < s.level)),
    ("depth", .nat s.depth),
    ("ids", Json.orNull ((s.turn.stackAt? s.level).map fun stack => .strings stack.ids)),
    ("active", Json.orNull ((s.turn.active? s.level).map Frame.toJson)),
    ("memory", Json.orNull ((s.turn.memory? s.level).map .object)),
    ("registered", .nat s.registered),
    ("responded", .bool s.turn.hasReplied),
    ("message", .bool s.turn.activity.isMessage)]

/-- What an action reports, and the turn result it produced if any. -/
structure Report where
  shown : Json
  result : Option TurnResult := none

namespace Report

def ok : Report := { shown := .string "ok" }

def ofResult (r : TurnResult) : Report := { shown := r.toJson, result := some r }

/-- A value that may be absent. -/
def ofOptional (value : Option Json) : Report :=
  { shown := .ofFields (Json.optional "value" value) }

end Report

def resultField (result : Option TurnResult) : List (String × Json) :=
  Json.optional "r" (result.map TurnResult.toJson)

def Deed.run (vars : Variables) : Deed → Program Report
  | .begin id options => do
    return .ofResult (← Program.begin id (← options.resolve vars))
  | .replace id options => do
    return .ofResult (← Program.run (.replace id (← options.resolve vars)))
  | .prompt id options => do return .ofResult (← Program.prompt id options)
  | .advance => do return .ofResult (← Program.advance)
  | .reprompt => do return .ofResult (← Program.reprompt)
  | .finish result => do return .ofResult (← Program.finish (← result.resolve vars))
  | .cancel event value => do
    return .ofResult (← Program.run (.cancelAll event (← value.resolve vars)))
  | .answer status result => do return .ofResult (turnResult status (← result.resolve vars))
  | .next result => do return .ofResult (← Waterfall.next (← result.resolve vars))
  | .save key value => do
    Waterfall.save key (Json.orNull (← value.resolve vars))
    return .ok
  | .values => do return { shown := .object (← Waterfall.values) }
  | .clear reason => do
    Program.run (.clear reason)
    return .ok
  | .emit name value bubble fromLeaf => do
    let handled ← Program.run (.emit name (← value.resolve vars) bubble fromLeaf)
    return { shown := .bool handled }
  | .fail how message => Program.fail (how.fault message)
  | .get path => do return .ofOptional (← Program.get path)
  | .getAs path shape => do
    return .ofOptional (← Program.getAs (fun v => if shape.fits v then some v else none) path)
  | .set path value => do
    Program.set path (Json.orNull (← value.resolve vars))
    return .ok
  | .delete path => do return .ofOptional (← Program.change (.delete path))
  | .add path amount => do
    let sum := (((← Program.get path).bind Json.signed?).getD 0) + amount
    Program.set path (.number (.integer sum))
    return { shown := .number (.integer sum) }
  | .send text rest => do
    Program.sendText (text ++ appended (← rest.resolve vars))
    return .ok
  | .sendActivity activity => do
    Program.send (← Program.ofExcept (Fault.orMalformed (Activity.ofJson? activity)))
    return .ok
  | .takeReplies => do
    return { shown := .array ((← Program.change .takeReplies).map Activity.toJson) }
  | .tags => do return { shown := .strings (← Program.sight).activeTags }
  | .globalTags texts => do
    Program.change (.setGlobalTags texts)
    return { shown := .strings texts }
  | .find id => do
    let s ← Program.sight
    return { shown := Json.orNull ((s.describe s.level id).map described) }
  | .info => do return { shown := Sight.info (← Program.sight) }
  | .memory => do return { shown := .object (← Program.change .openMemory) }
  | .nothing => return { shown := .null }

/-- Notes what came of an action, and hands on its turn result. -/
def settle (name : String) (tolerant : Bool) (action : Program Report) :
    Program (Option TurnResult) := do
  match ← action.attempt with
  | .ok report =>
    Program.record (.ofFields [("act", .string name), ("r", report.shown)])
    return report.result
  | .error e =>
    Program.record (.ofFields (("act", .string name) :: e.fields))
    if tolerant then return none else Program.fail e

/-- Runs a list in another context, if there is one. -/
def reportWithin (place : Place) (body : Program (Option TurnResult)) : Program Report :=
  .within place
    (do
      let level := (← Program.sight).level
      return (level, ← body))
    fun
    | none => return { shown := .null }
    | some outcome => do
      let (level, result) ← Program.ofExcept outcome
      return { shown := .ofFields (("level", .nat level) :: resultField result), result }

/-- Runs one of two lists. An absent subject is only equal to an absent expectation. -/
def reportBranch (vars : Variables) (subject : Argument) (expected : Option Json)
    (hit miss : Program (Option TurnResult)) : Program Report := do
  let met := (← subject.resolve vars) == expected
  let result ← if met then hit else miss
  return { shown := .ofFields (("hit", .bool met) :: resultField result), result }

mutual
/-- Runs an action as one of a list. -/
def Action.run (vars : Variables) : Action → Program (Option TurnResult)
  | .plain name tolerant deed => settle name tolerant (deed.run vars)
  | .within name tolerant place actions =>
    settle name tolerant (reportWithin place (runFrom vars none actions))
  | .branch name tolerant subject expected hit miss =>
    settle name tolerant
      (reportBranch vars subject expected (runFrom vars none hit) (runFrom vars none miss))

/-- Runs the rest of a list after the last turn result so far. -/
def runFrom (vars : Variables) (last : Option TurnResult) :
    List Action → Program (Option TurnResult)
  | [] => return last
  | action :: rest => do
    let result ← Action.run vars action
    runFrom vars (result <|> last) rest
end

/-- An action on its own: its report is not noted. -/
def Action.report (vars : Variables) : Action → Program Report
  | .plain _ _ deed => deed.run vars
  | .within _ _ place actions => reportWithin place (runFrom vars none actions)
  | .branch _ _ subject expected hit miss =>
    reportBranch vars subject expected (runFrom vars none hit) (runFrom vars none miss)

/-- A list of actions as a hook or a step: without a turn result it waits. -/
def runAll (vars : Variables) (actions : List Action) : Program TurnResult := do
  return (← runFrom vars none actions).getD .waiting

end Colloquy.Script
