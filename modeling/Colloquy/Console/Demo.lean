import Colloquy.Dialog.Component
import Colloquy.Dialog.Prompt
import Colloquy.Dialog.Waterfall

/-!
# The demo conversation

A waterfall asks for a name and whether a newsletter is wanted. The component
around it answers "help" and "cancel" before the running prompt hears them.
-/
namespace Colloquy.Console.Demo

def rootId : String := "main"
def profileId : String := "profile"
def nameId : String := "name"
def newsletterId : String := "newsletter"
def longestName : Nat := 40

def nameRetry : String :=
  "Please enter a name of at most " ++ toString longestName ++ " characters."

def askName : Step := fun _ => do
  let company := (← Program.getAs Json.string? "settings.companyName").getD "Parley"
  Program.prompt nameId
    { prompt := "Welcome to " ++ company ++ ". What is your name?", retry := some nameRetry }

def askNewsletter : Step := fun input => do
  let name := Json.orNull input.result
  Waterfall.save "name" name
  Program.set "user.name" name
  Program.prompt newsletterId
    { prompt := "Nice to meet you, " ++ name.string?.getD "" ++ ". Would you like our newsletter?"
      retry := some "Please answer yes or no." }

def summarize : Step := fun input => do
  let subscribed := (input.result.bind Json.bool?).getD false
  let values ← Waterfall.values
  Program.set "user.newsletter" (.bool subscribed)
  Program.sendText
    (if subscribed then "You're subscribed. Say anything to start over."
      else "No newsletter then. Say anything to start over.")
  Program.finish (some (.object (values.insert "newsletter" (.bool subscribed))))

def profile : Waterfall :=
  { id := profileId, steps := [askName, askNewsletter, summarize], tags := ["profile"] }

def namePrompt : Prompt where
  id := nameId
  recognize := .text
  judge trial :=
    { accepted := match trial.recognized with
        | .string name => name.length ≤ longestName
        | _ => false }

def newsletterPrompt : Prompt := { id := newsletterId, recognize := .confirm }

def inner : DialogSet :=
  Table.ofList [(profileId, profile.dialog), (nameId, namePrompt.dialog),
    (newsletterId, newsletterPrompt.dialog)]

/-- The word a received activity says, without blanks around it and in lower case. -/
def keyword? (event : Event) : Option String :=
  if event.name = Event.activityReceived then
    ((event.value.bind (·.field? "text")).bind Json.string?).map
      fun text => Text.lower (Text.trim text)
  else none

def answerKeyword (event : Event) : Program Bool :=
  match keyword? event with
  | some "help" => do
    Program.sendText "Answer the question below, or say 'cancel' to stop."
    let _ ← Program.reprompt
    return true
  | some "cancel" => do
    Program.sendText "Cancelled. Say anything to start over."
    let _ ← Program.run (.cancelAll Event.cancelDialog none)
    return true
  | _ => return false

def root : Dialog :=
  { ({ id := rootId, initial := profileId, dialogs := inner } : Component).dialog with
    beforeEvent := answerKeyword }

def dialogs : DialogSet := Table.empty.insert rootId root

end Colloquy.Console.Demo
