import Colloquy.Text.Blank
import Colloquy.Time.Instant

/-!
# Timestamps

The text of an instant. Reading takes a date, a `T`, `t` or blank, a time of day
and an offset from UTC, with blanks allowed between the parts; writing gives UTC
with as many groups of three decimals as the fraction needs.
-/
namespace Colloquy.Timestamp
open Text (trimStart)

def digits (cs : List Char) : List Char := cs.takeWhile Char.isDigit

def valueOf (cs : List Char) : Nat := cs.foldl (fun n c => n * 10 + (c.toNat - '0'.toNat)) 0

/-- At least one and at most `width` digits. -/
def readNumber (width : Nat) (cs : List Char) : Option (Nat × List Char) :=
  let run := (digits cs).take width
  if run.isEmpty then none else some (valueOf run, cs.drop run.length)

/-- A sign lifts the limit of four digits. -/
def readYear (cs : List Char) : Option (Int × List Char) :=
  match trimStart cs with
  | '-' :: rest => (readNumber rest.length rest).map fun (n, rest) => (-(n : Int), rest)
  | '+' :: rest => (readNumber rest.length rest).map fun (n, rest) => ((n : Int), rest)
  | cs => (readNumber 4 cs).map fun (n, rest) => ((n : Int), rest)

def readField (cs : List Char) : Option (Nat × List Char) := readNumber 2 (trimStart cs)

def readMark (mark : Char) (cs : List Char) : Option (List Char) :=
  match trimStart cs with
  | c :: rest => if c = mark then some rest else none
  | [] => none

def readDate (cs : List Char) : Option (CivilDate × List Char) := do
  let (year, cs) ← readYear cs
  let cs ← readMark '-' cs
  let (month, cs) ← readField cs
  let cs ← readMark '-' cs
  let (day, cs) ← readField cs
  let date : CivilDate := { year, month, day }
  if date.isValid then some (date, cs) else none

/-- The decimals of a second. Nine count, and further ones are dropped. -/
def readFraction : List Char → Option (Nat × List Char)
  | '.' :: rest =>
    let run := digits rest
    if run.isEmpty then none
    else
      let kept := run.take 9
      some (valueOf kept * Nat.pow 10 (9 - kept.length), rest.drop run.length)
  | cs => some (0, cs)

/-- Seconds of the day and nanoseconds. Second 60 is the leap second after 59. -/
def readTime (cs : List Char) : Option (Nat × Nat × List Char) := do
  let (hour, cs) ← readField cs
  let cs ← readMark ':' cs
  let (minute, cs) ← readField cs
  let cs ← readMark ':' cs
  let (second, cs) ← readField cs
  let (nanosecond, cs) ← readFraction cs
  if hour ≤ 23 ∧ minute ≤ 59 ∧ second ≤ 60 then
    let leap := if second = 60 then 1000000000 else 0
    some (hour * 3600 + minute * 60 + min second 59, nanosecond + leap, cs)
  else none

/-- Two digits of hours, colons or blanks, two digits of minutes. -/
def readHoursMinutes : List Char → Option (Nat × List Char)
  | a :: b :: rest => do
    if ¬ (a.isDigit ∧ b.isDigit) then none
    match rest.dropWhile (fun c => c = ':' || Text.isBlank c) with
    | c :: d :: rest =>
      if c.isDigit ∧ c ≤ '5' ∧ d.isDigit then
        some (valueOf [a, b] * 3600 + valueOf [c, d] * 60, rest)
      else none
    | _ => none
  | _ => none

/-- Seconds east of UTC, less than a day. -/
def readOffset (cs : List Char) : Option (Int × List Char) :=
  match cs with
  | 'Z' :: rest | 'z' :: rest => some (0, rest)
  | '+' :: rest => (readHoursMinutes rest).map fun (n, rest) => ((n : Int), rest)
  | '-' :: rest | '\u2212' :: rest =>
    (readHoursMinutes rest).map fun (n, rest) => (-(n : Int), rest)
  | u :: t :: c :: rest =>
    if u.toUpper = 'U' ∧ t.toUpper = 'T' ∧ c.toUpper = 'C' then some (0, rest) else none
  | _ => none

def parse? (text : String) : Option Instant := do
  let (date, cs) ← readDate text.toList
  let cs ← match cs with
    | 'T' :: rest | 't' :: rest | ' ' :: rest => some rest
    | _ => none
  let (second, nanosecond, cs) ← readTime cs
  let (offset, cs) ← readOffset (trimStart cs)
  let t : Instant := { second := date.toDays * 86400 + second - offset, nanosecond }
  if (trimStart cs).isEmpty ∧ offset.natAbs < 86400 ∧ CivilDate.minYear ≤ t.date.year
      ∧ t.date.year ≤ CivilDate.maxYear then some t
  else none

/-- Decimal digits with zeros in front up to a width. -/
def padded (width n : Nat) : String :=
  let ds := Nat.toDigits 10 n
  String.ofList (List.replicate (width - ds.length) '0' ++ ds)

/-- Four digits; years outside 0 to 9999 carry their sign. -/
def yearText (year : Int) : String :=
  if 0 ≤ year ∧ year ≤ 9999 then padded 4 year.toNat
  else (if year < 0 then "-" else "+") ++ padded 4 year.natAbs

def fractionText (nanosecond : Nat) : String :=
  if nanosecond = 0 then ""
  else if nanosecond % 1000000 = 0 then "." ++ padded 3 (nanosecond / 1000000)
  else if nanosecond % 1000 = 0 then "." ++ padded 6 (nanosecond / 1000)
  else "." ++ padded 9 nanosecond

def text (t : Instant) : String :=
  let d := t.date
  let s := t.secondOfDay
  let leap := 1000000000 ≤ t.nanosecond
  yearText d.year ++ "-" ++ padded 2 d.month ++ "-" ++ padded 2 d.day
    ++ "T" ++ padded 2 (s / 3600) ++ ":" ++ padded 2 (s / 60 % 60)
    ++ ":" ++ padded 2 (s % 60 + if leap then 1 else 0)
    ++ fractionText (t.nanosecond % 1000000000) ++ "Z"

end Colloquy.Timestamp
