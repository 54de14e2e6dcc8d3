import Colloquy.Json.Decimal

/-!
# Reading JSON

A reader returns the value at the front of a text and what follows it, or
`none` when the text does not start with a value. The depth budget bounds
nesting only; a text's length is always enough.
-/
namespace Colloquy.Json

def isSpace (c : Char) : Bool := c = ' ' || c = '\t' || c = '\n' || c = '\r'

def skipSpace (cs : List Char) : List Char := cs.dropWhile isSpace

def hexDigit? (c : Char) : Option Nat :=
  if c.isDigit then some (c.toNat - '0'.toNat)
  else if 'a' ≤ c ∧ c ≤ 'f' then some (c.toNat - 'a'.toNat + 10)
  else if 'A' ≤ c ∧ c ≤ 'F' then some (c.toNat - 'A'.toNat + 10)
  else none

/-- Four hexadecimal digits. -/
def readUnit : List Char → Option (Nat × List Char)
  | a :: b :: c :: d :: rest => do
    let unit := (← hexDigit? a) * 4096 + (← hexDigit? b) * 256 + (← hexDigit? c) * 16
      + (← hexDigit? d)
    some (unit, rest)
  | _ => none

/-- The character after `\u`: one unit, or a high and a low surrogate. -/
def readEscapedUnit (cs : List Char) : Option (Char × List Char) := do
  let (unit, rest) ← readUnit cs
  if 0xd800 ≤ unit ∧ unit < 0xdc00 then
    match rest with
    | '\\' :: 'u' :: rest =>
      let (low, rest) ← readUnit rest
      if 0xdc00 ≤ low ∧ low < 0xe000 then
        some (Char.ofNat (0x10000 + (unit - 0xd800) * 1024 + (low - 0xdc00)), rest)
      else none
    | _ => none
  else if 0xdc00 ≤ unit ∧ unit < 0xe000 then none
  else some (Char.ofNat unit, rest)

/-- One character inside quotes; `none` in it stands for the closing quote. -/
def readChar : List Char → Option (Option Char × List Char)
  | '"' :: rest => some (none, rest)
  | '\\' :: c :: rest =>
    match c with
    | '"' => some (some '"', rest)
    | '\\' => some (some '\\', rest)
    | '/' => some (some '/', rest)
    | 'b' => some (some '\x08', rest)
    | 'f' => some (some '\x0c', rest)
    | 'n' => some (some '\n', rest)
    | 'r' => some (some '\r', rest)
    | 't' => some (some '\t', rest)
    | 'u' => (readEscapedUnit rest).map fun (c, rest) => (some c, rest)
    | _ => none
  | c :: rest => if c.toNat < 0x20 then none else some (some c, rest)
  | [] => none

/-- The rest of a string after its opening quote. -/
def readString : Nat → List Char → List Char → Option (String × List Char)
  | 0, _, _ => none
  | fuel + 1, seen, cs =>
    match readChar cs with
    | none => none
    | some (none, rest) => some (String.ofList seen.reverse, rest)
    | some (some c, rest) => readString fuel (c :: seen) rest

def readQuoted : List Char → Option (String × List Char)
  | '"' :: rest => readString (rest.length + 1) [] rest
  | _ => none

/-- The items of an array after the first, up to the closing bracket. -/
def readItems (read : List Char → Option (Json × List Char)) :
    Nat → List Json → List Char → Option (List Json × List Char)
  | 0, _, _ => none
  | fuel + 1, seen, cs => do
    let (item, rest) ← read cs
    match skipSpace rest with
    | ',' :: rest => readItems read fuel (item :: seen) rest
    | ']' :: rest => some ((item :: seen).reverse, rest)
    | _ => none

/-- The fields of an object up to the closing brace. -/
def readFields (read : List Char → Option (Json × List Char)) :
    Nat → Object → List Char → Option (Object × List Char)
  | 0, _, _ => none
  | fuel + 1, seen, cs => do
    let (key, rest) ← readQuoted (skipSpace cs)
    match skipSpace rest with
    | ':' :: rest =>
      let (value, rest) ← read rest
      let seen := seen.insert key value
      match skipSpace rest with
      | ',' :: rest => readFields read fuel seen rest
      | '\x7d' :: rest => some (seen, rest)
      | _ => none
    | _ => none

/-- A value with blanks allowed in front of it. -/
def readValue : Nat → List Char → Option (Json × List Char)
  | 0, _ => none
  | depth + 1, cs =>
    match skipSpace cs with
    | 'n' :: 'u' :: 'l' :: 'l' :: rest => some (.null, rest)
    | 't' :: 'r' :: 'u' :: 'e' :: rest => some (.bool true, rest)
    | 'f' :: 'a' :: 'l' :: 's' :: 'e' :: rest => some (.bool false, rest)
    | '"' :: rest => (readQuoted ('"' :: rest)).map fun (s, rest) => (.string s, rest)
    | '[' :: rest =>
      match skipSpace rest with
      | ']' :: rest => some (.array [], rest)
      | rest => (readItems (readValue depth) rest.length [] rest).map fun (items, rest) =>
          (.array items, rest)
    | '\x7b' :: rest =>
      match skipSpace rest with
      | '\x7d' :: rest => some (.object .empty, rest)
      | rest => (readFields (readValue depth) rest.length .empty rest).map fun (fields, rest) =>
          (.object fields, rest)
    | cs => (Decimal.read cs).map fun (n, rest) => (.number n, rest)

/-- A whole text that is one value, with blanks allowed around it. -/
def parse? (text : String) : Option Json :=
  let cs := text.toList
  match readValue (cs.length + 1) cs with
  | some (value, rest) => if (skipSpace rest).isEmpty then some value else none
  | none => none

end Colloquy.Json
