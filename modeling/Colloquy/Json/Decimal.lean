import Colloquy.Json.Basic

/-!
# Reading numbers

A number literal keeps as many leading digits as fit in 64 bits. Integers that
fit an unsigned or a signed word stay integers; everything else becomes a
double, by one multiplication or division of the kept digits by a power of ten
for each 308 of its exponent. A double too large to be finite is refused.
-/
namespace Colloquy.Decimal

/-- Significands fit in 64 bits. -/
def wordLimit : Nat := 0x10000000000000000

/-- Exponents fit in 31 bits. -/
def exponentLimit : Nat := 0x80000000

/-- The size of the least integer of 64 bits with sign. -/
def signedLimit : Nat := 0x8000000000000000

def digit? (c : Char) : Option Nat :=
  if c.isDigit then some (c.toNat - '0'.toNat) else none

/-- The value of a run of digits after `start`, as far as it stays below the limit,
with the digits that are left over. -/
def accumulate (limit : Nat) (start : Nat) : List Char → Nat × List Char
  | [] => (start, [])
  | c :: rest =>
    match digit? c with
    | none => (start, c :: rest)
    | some d =>
      if start * 10 + d < limit then accumulate limit (start * 10 + d) rest
      else (start, c :: rest)

def digits (cs : List Char) : List Char := cs.takeWhile Char.isDigit

def afterDigits (cs : List Char) : List Char := cs.dropWhile Char.isDigit

/-- Scales by `10 ^ exponent` in steps a double can hold; `none` when the value
leaves the finite doubles. -/
def scale (value : Float) (exponent : Int) : Nat → Option Float
  | 0 => none
  | fuel + 1 =>
    if exponent.natAbs ≤ 308 then
      let power := Float.ofScientific 1 false exponent.natAbs
      if 0 ≤ exponent then
        let scaled := value * power
        if scaled.isInf then none else some scaled
      else some (value / power)
    else if value == 0 then some value
    else if 0 ≤ exponent then none
    else scale (value / Float.ofScientific 1 false 308) (exponent + 308) fuel

def double (negative : Bool) (significand : Nat) (exponent : Int) : Option Number :=
  (scale significand.toUInt64.toFloat exponent (exponent.natAbs / 308 + 1)).map fun x =>
    .double (if negative then -x else x).toBits

/-- Reads an exponent after its letter. An exponent beyond 31 bits gives zero,
unless it is positive and the number is not zero. -/
def readExponent (negative : Bool) (significand : Nat) (start : Int) (cs : List Char) :
    Option (Number × List Char) :=
  let (down, cs) := match cs with
    | '+' :: rest => (false, rest)
    | '-' :: rest => (true, rest)
    | _ => (false, cs)
  if (digits cs).isEmpty then none
  else
    match accumulate exponentLimit 0 cs with
    | (e, []) => finish down e []
    | (e, c :: rest) =>
      if c.isDigit then
        if significand ≠ 0 ∧ ¬ down then none
        else some (.double (if negative then -0.0 else 0.0 : Float).toBits, afterDigits rest)
      else finish down e (c :: rest)
where
  finish (down : Bool) (e : Nat) (rest : List Char) : Option (Number × List Char) :=
    (double negative significand (if down then start - e else start + e)).map (·, rest)

/-- What follows the digits of a double: an exponent or nothing. -/
def readTail (negative : Bool) (significand : Nat) (exponent : Int) :
    List Char → Option (Number × List Char)
  | 'e' :: rest | 'E' :: rest => readExponent negative significand exponent rest
  | rest => (double negative significand exponent).map (·, rest)

/-- Reads decimals after the point. Digits that no longer fit are dropped. -/
def readDecimals (negative : Bool) (significand : Nat) (exponent : Int) (cs : List Char) :
    Option (Number × List Char) :=
  if (digits cs).isEmpty then none
  else
    let (kept, rest) := accumulate wordLimit significand cs
    readTail negative kept (exponent - (cs.length - rest.length : Nat)) (afterDigits rest)

/-- Reads what follows the kept integer digits. -/
def readFraction (negative : Bool) (significand : Nat) (exponent : Int) :
    List Char → Option (Number × List Char)
  | '.' :: rest => readDecimals negative significand exponent rest
  | rest => readTail negative significand exponent rest

/-- The value of a literal made of integer digits only. -/
def whole (negative : Bool) (n : Nat) : Number :=
  if ¬ negative then .integer n
  else if n = 0 ∨ signedLimit < n then .double (-n.toUInt64.toFloat).toBits
  else .integer (-n)

/-- Reads the digits of a number whose sign has been read. -/
def readUnsigned (negative : Bool) (cs : List Char) : Option (Number × List Char) :=
  match cs with
  | '0' :: rest =>
    match rest with
    | c :: _ => if c.isDigit then none else plain 0 rest
    | [] => plain 0 rest
  | _ =>
    if (digits cs).isEmpty then none
    else
      let (n, rest) := accumulate wordLimit 0 cs
      match digits rest with
      | [] => plain n rest
      | surplus => readFraction negative n surplus.length (afterDigits rest)
where
  plain (n : Nat) : List Char → Option (Number × List Char)
    | '.' :: rest => readDecimals negative n 0 rest
    | 'e' :: rest | 'E' :: rest => readExponent negative n 0 rest
    | rest => some (whole negative n, rest)

/-- Reads a number from the front of a text. -/
def read : List Char → Option (Number × List Char)
  | '-' :: rest => readUnsigned true rest
  | cs => readUnsigned false cs

end Colloquy.Decimal
