import Colloquy.Console.Conversation

/-!
# The console program

Reads the process's variables and its input line by line, and prints replies.
-/
namespace Colloquy.Console

/-- The variables of the process, as name and value. -/
def environment : IO (List (String × String)) := do
  let bytes ← IO.FS.readBinFile "/proc/self/environ"
  let entries := (bytes.toList.splitOn 0).filterMap decode?
  return entries.filterMap fun entry =>
    match entry.splitOn "=" with
    | name :: first :: more => some (name, "=".intercalate (first :: more))
    | _ => none

/-- Answers lines until the input ends, and tells how it went. -/
partial def converse (c : Conversation) : IO UInt32 := do
  let line ← (← IO.getStdin).getLine
  match (lines line.toUTF8.toList).map decode? with
  | [] => return 0
  | text :: _ =>
    match text.bind (c.say fuel) with
    | none =>
      IO.eprintln "the turn failed"
      return 1
    | some (output, c) =>
      let stdout ← IO.getStdout
      stdout.putStr output
      stdout.flush
      converse c

end Colloquy.Console

open Colloquy.Console in
def main : IO UInt32 := do
  match Conversation.start (← environment) with
  | .error fault =>
    IO.eprintln fault.message
    return 1
  | .ok c => converse c
