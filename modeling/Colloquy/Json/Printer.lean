import Colloquy.Json.Basic
import Colloquy.Json.Shortest

/-!
# Writing JSON

Compact text: no blanks, the keys of an object in code point order. Quotes,
backslashes and control characters are escaped, and nothing else is.
-/
namespace Colloquy

def Number.text : Number → String
  | .integer n => toString n
  | .double bits => Double.text bits

namespace Json

def escape (c : Char) : List Char :=
  match c with
  | '"' => ['\\', '"']
  | '\\' => ['\\', '\\']
  | '\n' => ['\\', 'n']
  | '\r' => ['\\', 'r']
  | '\t' => ['\\', 't']
  | '\x08' => ['\\', 'b']
  | '\x0c' => ['\\', 'f']
  | c =>
    if c.toNat < 0x20 then
      ['\\', 'u', '0', '0', Nat.digitChar (c.toNat / 16), Nat.digitChar (c.toNat % 16)]
    else [c]

def quoted (s : String) : String :=
  s.foldl (fun out c => (escape c).foldl String.push out) "\"" ++ "\""

mutual
def compact : Json → String
  | .null => "null"
  | .bool true => "true"
  | .bool false => "false"
  | .number n => n.text
  | .string s => quoted s
  | .array [] => "[]"
  | .array (v :: rest) => "[" ++ compact v ++ compactItems rest ++ "]"
  | .object ⟨[]⟩ => "\x7b\x7d"
  | .object ⟨(k, v) :: rest⟩ =>
    "\x7b" ++ quoted k ++ ":" ++ compact v ++ compactFields rest ++ "\x7d"

def compactItems : List Json → String
  | [] => ""
  | v :: rest => "," ++ compact v ++ compactItems rest

def compactFields : List (String × Json) → String
  | [] => ""
  | (k, v) :: rest => "," ++ quoted k ++ ":" ++ compact v ++ compactFields rest
end

end Json
end Colloquy
