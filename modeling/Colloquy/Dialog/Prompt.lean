import Colloquy.Dialog.Basic

/-!
# Prompts

A prompt sends a question and waits for a message it recognizes a value in. It
ends with the first value that its validator accepts, and answers every other
message with the retry text, unless something was already said in that turn.
-/
namespace Colloquy

structure PromptOptions where
  prompt : String
  retry : Option String := none
  deriving DecidableEq, Repr

namespace PromptOptions

def retryText (o : PromptOptions) : String := o.retry.getD o.prompt

def toJson (o : PromptOptions) : Json :=
  .ofFields (("prompt", .string o.prompt) :: Json.optional "retryPrompt" (o.retry.map .string))

def ofJson? (v : Json) : Option PromptOptions := do
  let v ← v.record? ["prompt", "retryPrompt"]
  return {
    prompt := ← (← v.field? "prompt").string?
    retry := ← v.optional? "retryPrompt" Json.string? }

end PromptOptions

/-- Finds a value in an activity. -/
abbrev Recognizer := Activity → Except Fault (Option Json)

namespace Recognizer

/-- The text without blanks around it, unless nothing is left. -/
def text : Recognizer := fun a =>
  let s := Text.trim a.textOrEmpty
  .ok (if s.isEmpty then none else some (.string s))

def yes : List String := ["yes", "y", "yeah", "sure", "ok", "true"]

def no : List String := ["no", "n", "nope", "false"]

/-- An answer is compared without the full stops and exclamation marks at its end. -/
def answer (a : Activity) : String :=
  let cs := Text.trimChars a.textOrEmpty.toList
  Text.fold (String.ofList (Text.dropEndWhile (fun c => c = '.' || c = '!') cs))

def confirm : Recognizer := fun a =>
  let s := answer a
  .ok (if yes.contains s then some (.bool true)
    else if no.contains s then some (.bool false)
    else none)

/-- The value the activity carries. -/
def payload : Recognizer := fun a => .ok a.value

/-- A recognizer that is out of order. -/
def unavailable (reason : String) : Recognizer := fun _ => .error (.collaborator reason)

end Recognizer

/-- What a validator judges: the value, how many messages there were, the options. -/
structure Trial where
  recognized : Json
  attempt : Nat
  options : PromptOptions

/-- A validator's answer, with what it wants noted. -/
structure Verdict where
  accepted : Bool
  notes : List Json := []

structure Prompt where
  id : String
  recognize : Recognizer
  judge : Trial → Verdict := fun _ => { accepted := true }

namespace Prompt

def optionsPath : String := "dialog.options"
def attemptPath : String := "dialog.attemptCount"

theorem parse_optionsPath :
    Path.parse optionsPath = .ok ⟨"dialog.options", .dialog, ["options"]⟩ :=
  Path.parse_eq (by decide +kernel)

theorem parse_attemptPath :
    Path.parse attemptPath = .ok ⟨"dialog.attemptCount", .dialog, ["attemptCount"]⟩ :=
  Path.parse_eq (by decide +kernel)

def storedOptions : Program PromptOptions := do
  match ← Program.getAs PromptOptions.ofJson? optionsPath with
  | some options => return options
  | none => Program.fail (.invalidArgument .promptRunsWithoutOptions)

def begin (p : Prompt) (options : Option Json) : Program TurnResult :=
  match options with
  | none => Program.fail (.invalidArgument (.promptBegunWithoutOptions p.id))
  | some v => do
    let options ← Program.ofExcept (Fault.orMalformed (PromptOptions.ofJson? v))
    Program.set attemptPath (.nat 0)
    Program.sendText options.prompt
    return .waiting

def judged (p : Prompt) (trial : Trial) : Program Bool := do
  let verdict := p.judge trial
  verdict.notes.forM Program.record
  return verdict.accepted

/-- Counts the message and looks for a value that is accepted. -/
def accept? (p : Prompt) (options : PromptOptions) : Program (Option Json) := do
  let attempt := ((← Program.getAs Json.natural? attemptPath).getD 0) + 1
  Program.set attemptPath (.nat attempt)
  match ← Program.ofExcept (p.recognize (← Program.activity)) with
  | none => return none
  | some value =>
    if ← p.judged { recognized := value, attempt, options } then return some value
    else return none

def advance (p : Prompt) : Program TurnResult := do
  if !(← Program.activity).isMessage then return .waiting
  let options ← storedOptions
  match ← p.accept? options with
  | some value => Program.finish (some value)
  | none =>
    if !(← Program.sight).turn.hasReplied then Program.sendText options.retryText
    return .waiting

def reprompt : Program Unit := do Program.sendText (← storedOptions).prompt

def dialog (p : Prompt) : Dialog where
  id := p.id
  onBegin := p.begin
  onContinue := p.advance
  onResume _ _ := do
    reprompt
    return .waiting
  onReprompt := reprompt

end Prompt

/-- Begins a prompt, which needs a text that is not blank. -/
def Program.prompt (id : String) (options : PromptOptions) : Program TurnResult :=
  if Text.isBlankText options.prompt then fail (.invalidArgument (.blankPrompt id))
  else begin id (some options.toJson)

end Colloquy
