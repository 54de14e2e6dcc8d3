import Colloquy.Console.Config
import Colloquy.Console.Demo
import Colloquy.Host
import Colloquy.Settings

/-!
# A conversation on the console

Every line of the input is a message in one conversation, and every text sent in
reply is printed. The conversation ends with the input, with a line that is not
UTF-8, or with a turn that fails; what was printed before stays printed.
-/
namespace Colloquy.Console

/-- A line without the carriage return in front of its line feed. The line is given
with its last character first. -/
def endedLine : List UInt8 → List UInt8
  | 13 :: rest => rest.reverse
  | line => line.reverse

/-- The lines of an input, after the part of a line already read, last character
first. What follows the last line feed is a line if there is anything. -/
def linesAfter : List UInt8 → List UInt8 → List (List UInt8)
  | [], [] => []
  | line, [] => [line.reverse]
  | line, b :: rest =>
    if b = 10 then endedLine line :: linesAfter [] rest else linesAfter (b :: line) rest

def lines (bytes : List UInt8) : List (List UInt8) := linesAfter [] bytes

def decode? (line : List UInt8) : Option String := String.fromUTF8? ⟨line.toArray⟩

/-- A conversation under way on the console. -/
structure Conversation where
  config : Config
  settings : Object
  kept : Table Snapshot := .empty

namespace Conversation

def start (vars : List (String × String)) : Except ConfigFault Conversation := do
  return { config := ← Config.ofVariables vars, settings := Settings.ofVariables vars }

def host (c : Conversation) : Host :=
  { dialogs := Demo.dialogs, root := Demo.rootId, settings := c.settings }

/-- What is printed for a reply. -/
def printed (a : Activity) : String :=
  match a.text with
  | some text => "bot> " ++ text ++ "\n"
  | none => ""

/-- A message and the texts printed in answer, unless its turn fails. -/
def say (fuel : Nat) (c : Conversation) (text : String) : Option (String × Conversation) :=
  match c.host.handle fuel Store.memory (.message c.config.conversation text) c.kept with
  | some (.ok outcome, _, kept) =>
    some (String.join (outcome.replies.map printed), { c with kept })
  | _ => none

/-- All that is printed for lines, and whether the conversation ended well. -/
def run (fuel : Nat) : Conversation → List (List UInt8) → String × Bool
  | _, [] => ("", true)
  | c, line :: rest =>
    match (decode? line).bind (c.say fuel) with
    | none => ("", false)
    | some (text, c) =>
      let (more, ok) := run fuel c rest
      (text ++ more, ok)

end Conversation

/-- The hook calls that a turn of the demo can spend are far below this. -/
def fuel : Nat := 1000000

/-- The whole console: its output for variables and an input, and whether it ended well. -/
def run (vars : List (String × String)) (input : List UInt8) : String × Bool :=
  match Conversation.start vars with
  | .error _ => ("", false)
  | .ok c => c.run fuel (lines input)

end Colloquy.Console
