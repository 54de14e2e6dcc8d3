import Colloquy.Dialog.Basic

/-!
# Waterfalls

A fixed sequence of steps, each run once. A step that begins a dialog or waits
hands over to the one after it when the result or the next message comes; a step
may also go on at once. Past the last step the waterfall ends with what that step
would have received.
-/
namespace Colloquy

/-- What a step is run with. -/
structure StepInput where
  index : Nat
  options : Option Json
  result : Option Json
  reason : Reason

abbrev Step := StepInput → Program TurnResult

structure Waterfall where
  id : String
  steps : List Step
  tags : List String := []
  inputs : List InputBinding := []
  output : Option String := none

namespace Waterfall

def indexPath : String := "dialog.stepIndex"
def valuesPath : String := "dialog.values"
def optionsPath : String := "dialog.options"

theorem parse_indexPath :
    Path.parse indexPath = .ok ⟨"dialog.stepIndex", .dialog, ["stepIndex"]⟩ :=
  Path.parse_eq (by decide +kernel)

theorem parse_valuesPath : Path.parse valuesPath = .ok ⟨"dialog.values", .dialog, ["values"]⟩ :=
  Path.parse_eq (by decide +kernel)

theorem parse_optionsPath :
    Path.parse optionsPath = .ok ⟨"dialog.options", .dialog, ["options"]⟩ :=
  Path.parse_eq (by decide +kernel)

/-- What the steps have saved so far. -/
def values : Program Object := do return (← Program.getAs Json.object? valuesPath).getD .empty

/-- Saves a value for the steps to come. -/
def save (key : String) (value : Json) : Program Unit :=
  Program.set (valuesPath ++ "." ++ key) value

/-- Goes on with the next step at once. A step can do this only once. -/
def next (result : Option Json) : Program TurnResult := Program.run (.next result)

def runStep (w : Waterfall) (index : Nat) (reason : Reason) (result : Option Json) :
    Program TurnResult :=
  match w.steps[index]? with
  | none => Program.finish result
  | some step => do
    Program.set indexPath (.nat index)
    let options ← Program.get optionsPath
    (step { index, options, result, reason }).limitNext
      (.invalidArgument (.stepAdvancedTwice index w.id)) false

def resume (w : Waterfall) (reason : Reason) (result : Option Json) : Program TurnResult := do
  let index := (← Program.getAs Json.natural? indexPath).getD 0
  w.runStep (index + 1) reason result

def begin (w : Waterfall) : Program TurnResult := do
  Program.set valuesPath (.object .empty)
  w.runStep 0 .begun none

/-- A message goes to the next step; other activities leave the step waiting. -/
def advance (w : Waterfall) : Program TurnResult := do
  let activity ← Program.activity
  if activity.isMessage then w.resume .continued (activity.text.map .string)
  else return .waiting

def dialog (w : Waterfall) : Dialog where
  id := w.id
  kind := .waterfall
  tags := w.tags
  inputs := w.inputs
  output := w.output
  onBegin _ := w.begin
  onContinue := w.advance
  onResume := w.resume

end Waterfall
end Colloquy
