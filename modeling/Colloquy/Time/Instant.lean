/-!
# Instants

A moment as whole seconds since 1970-01-01T00:00:00Z and the nanoseconds into
that second. A leap second counts into the second before it, so its nanoseconds
run from one to two thousand million. Days and civil dates convert by counting
400-year eras of 146097 days, each year taken to start in March.
-/
namespace Colloquy

structure Instant where
  second : Int
  nanosecond : Nat
  deriving DecidableEq, Repr

/-- A day of the proleptic Gregorian calendar. -/
structure CivilDate where
  year : Int
  month : Nat
  day : Nat
  deriving DecidableEq, Repr

namespace CivilDate

def isLeap (year : Int) : Bool := year % 4 = 0 && (year % 100 ≠ 0 || year % 400 = 0)

def daysInMonth (year : Int) (month : Nat) : Nat :=
  if month = 2 then if isLeap year then 29 else 28
  else if month = 4 ∨ month = 6 ∨ month = 9 ∨ month = 11 then 30
  else 31

/-- The years of which a calendar is kept. -/
def minYear : Int := -262143
def maxYear : Int := 262142

def isValid (d : CivilDate) : Bool :=
  minYear ≤ d.year && d.year ≤ maxYear && 1 ≤ d.month && d.month ≤ 12
    && 1 ≤ d.day && d.day ≤ daysInMonth d.year d.month

/-- Days since 1970-01-01. -/
def toDays (d : CivilDate) : Int :=
  let year := if d.month ≤ 2 then d.year - 1 else d.year
  let era := year / 400
  let yearOfEra := year % 400
  let month : Int := (d.month + 9 : Nat) % 12
  let dayOfYear := (153 * month + 2) / 5 + (d.day : Int) - 1
  let dayOfEra := yearOfEra * 365 + yearOfEra / 4 - yearOfEra / 100 + dayOfYear
  era * 146097 + dayOfEra - 719468

def ofDays (days : Int) : CivilDate :=
  let z := days + 719468
  let era := z / 146097
  let dayOfEra := z % 146097
  let yearOfEra := (dayOfEra - dayOfEra / 1460 + dayOfEra / 36524 - dayOfEra / 146096) / 365
  let dayOfYear := dayOfEra - (365 * yearOfEra + yearOfEra / 4 - yearOfEra / 100)
  let shifted := (5 * dayOfYear + 2) / 153
  let month := if shifted < 10 then shifted + 3 else shifted - 9
  let year := yearOfEra + era * 400 + if month ≤ 2 then 1 else 0
  { year, month := month.toNat, day := (dayOfYear - (153 * shifted + 2) / 5 + 1).toNat }

end CivilDate

namespace Instant

def date (t : Instant) : CivilDate := .ofDays (t.second / 86400)

/-- The second of the day, leap seconds counting into the one before. -/
def secondOfDay (t : Instant) : Nat := (t.second % 86400).toNat

end Instant
end Colloquy
