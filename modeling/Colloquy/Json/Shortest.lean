/-!
# Shortest decimals of doubles

The fewest decimal digits that read back as a given double, and among those
the digits nearest to it. A finite double is a whole significand times a power
of two; the reals that round to it form an interval around it, and the first
decimal grid with a point in that interval gives the digits.
-/
namespace Colloquy.Double

def isNegative (bits : UInt64) : Bool := bits >>> 63 = 1

/-- The weight of the lowest bit of the exponent field. -/
def fractionLimit : Nat := 0x10000000000000

def fraction (bits : UInt64) : Nat := bits.toNat % fractionLimit

def biasedExponent (bits : UInt64) : Nat := bits.toNat / fractionLimit % 2048

/-- The whole number that the double is a power of two times. -/
def significand (bits : UInt64) : Nat :=
  if biasedExponent bits = 0 then fraction bits else fractionLimit + fraction bits

/-- The exponent of that power of two. -/
def binaryExponent (bits : UInt64) : Int :=
  if biasedExponent bits = 0 then -1074 else (biasedExponent bits : Int) - 1075

/-- An interval of reals over a common denominator, and the value inside it. -/
structure Span where
  low : Nat
  value : Nat
  high : Nat
  denominator : Nat
  closed : Bool

/-- The reals that round to a double: half the gap to each neighbour, the ends
included when the significand is even. Below a power of two the gap is half as wide. -/
def spanOf (bits : UInt64) : Span :=
  let m := significand bits
  let below := if fraction bits = 0 ∧ 1 < biasedExponent bits then 1 else 2
  let e := binaryExponent bits - 2
  let scale := Nat.pow 2 e.toNat
  { low := (4 * m - below) * scale
    value := 4 * m * scale
    high := (4 * m + 2) * scale
    denominator := Nat.pow 2 (-e).toNat
    closed := m % 2 = 0 }

namespace Span

/-- The same interval in units of `10 ^ step`. -/
def inUnits (s : Span) (step : Int) : Span :=
  let up := Nat.pow 10 (-step).toNat
  { s with
    low := s.low * up
    value := s.value * up
    high := s.high * up
    denominator := s.denominator * Nat.pow 10 step.toNat }

def holds (s : Span) (n : Nat) : Bool :=
  let x := n * s.denominator
  if s.closed then s.low ≤ x && x ≤ s.high else s.low < x && x < s.high

/-- The whole number in the interval that is nearest to the value, if one of the
value's two neighbours is in it. A tie goes to the even one. -/
def nearest? (s : Span) : Option Nat :=
  let below := s.value / s.denominator
  let left := s.value - below * s.denominator
  let right := (below + 1) * s.denominator - s.value
  match s.holds below, s.holds (below + 1) with
  | true, true =>
    if left < right ∨ (left = right ∧ below % 2 = 0) then some below else some (below + 1)
  | true, false => some below
  | false, true => some (below + 1)
  | false, false => none

/-- How many times a fraction below one must be multiplied by ten to reach one. -/
def shifts (numerator denominator : Nat) : Nat → Nat
  | 0 => 0
  | fuel + 1 =>
    if denominator ≤ numerator then 0 else shifts (numerator * 10) denominator fuel + 1

/-- The power of ten of the value's first digit. -/
def order (s : Span) : Int :=
  let whole := s.value / s.denominator
  if whole = 0 then -(shifts s.value s.denominator 400 : Int)
  else ((Nat.toDigits 10 whole).length : Int) - 1

/-- Tries grids of more and more digits. -/
def search (s : Span) (order : Int) : Nat → Nat → Nat × Int
  | _, 0 => (0, 0)
  | digits, fuel + 1 =>
    let step := order - digits
    match (s.inUnits step).nearest? with
    | some n => (n, step)
    | none => search s order (digits + 1) fuel

end Span

/-- Drops trailing zeros of a whole number, counting them. -/
def trimZeros (n : Nat) (step : Int) : Nat → Nat × Int
  | 0 => (n, step)
  | fuel + 1 => if n % 10 = 0 ∧ n ≠ 0 then trimZeros (n / 10) (step + 1) fuel else (n, step)

/-- The shortest decimal `n · 10 ^ step` of a finite double that is not zero. -/
def shortest (bits : UInt64) : Nat × Int :=
  let s := spanOf bits
  let (n, step) := s.search s.order 0 20
  trimZeros n step 20

/-- Positional with at least one decimal from `10 ^ -5` up to `10 ^ 16`, otherwise
with a signed exponent. -/
def layout (n : Nat) (step : Int) : String :=
  let digits := Nat.toDigits 10 n
  let order := step + digits.length - 1
  let zeros (k : Int) := List.replicate k.toNat '0'
  if -5 ≤ order ∧ order < 16 then
    if 0 ≤ step then String.ofList (digits ++ zeros step ++ ['.', '0'])
    else if 0 ≤ order then
      let whole := order.toNat + 1
      String.ofList (digits.take whole ++ '.' :: digits.drop whole)
    else String.ofList ('0' :: '.' :: zeros (-order - 1) ++ digits)
  else
    let mantissa := match digits with
      | [] => []
      | [d] => [d]
      | d :: rest => d :: '.' :: rest
    let sign := if 0 ≤ order then "+" else "-"
    String.ofList mantissa ++ "e" ++ sign ++ toString order.natAbs

/-- The text of a finite double. -/
def text (bits : UInt64) : String :=
  let sign := if isNegative bits then "-" else ""
  if significand bits = 0 then sign ++ "0.0"
  else
    let (n, step) := shortest bits
    sign ++ layout n step

end Colloquy.Double
