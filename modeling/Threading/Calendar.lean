import Threading.Text.Numeral

/-!
# Calendar dates

Days are counted from 1 January 1970 in the proleptic Gregorian calendar. The
conversion to a date works on years that begin in March, so that a leap day is
the last day of its year, and on cycles of 400 years, which all have the same
number of days. `Date.IsValid` and `Date.dayNumber` say independently which dates
exist and which day they are.
-/
namespace Threading.Calendar

structure Date where
  year : Int
  month : Int
  day : Int
  deriving DecidableEq, Repr

/-- The days of a cycle of 400 years. -/
def cycleDays : Int := 146097

/-- The days from 1 March of year 0 to 1 January 1970. -/
def epochOffset : Int := 719468

/-- The date of a day. -/
def Date.ofDays (days : Int) : Date :=
  let z := days + epochOffset
  let cycle := z / cycleDays
  let dayOfCycle := z % cycleDays
  let yearOfCycle :=
    (dayOfCycle - dayOfCycle / 1460 + dayOfCycle / 36524 - dayOfCycle / 146096) / 365
  let dayOfYear := dayOfCycle - (365 * yearOfCycle + yearOfCycle / 4 - yearOfCycle / 100)
  let monthFromMarch := (5 * dayOfYear + 2) / 153
  let day := dayOfYear - (153 * monthFromMarch + 2) / 5 + 1
  let month := if monthFromMarch < 10 then monthFromMarch + 3 else monthFromMarch - 9
  let year := yearOfCycle + cycle * 400 + (if month ≤ 2 then 1 else 0)
  ⟨year, month, day⟩

def IsLeap (year : Int) : Prop := year % 4 = 0 ∧ (year % 100 ≠ 0 ∨ year % 400 = 0)

instance (year : Int) : Decidable (IsLeap year) := inferInstanceAs (Decidable (_ ∧ _))

/-- The days of a month. -/
def monthLength (year month : Int) : Int :=
  if month = 2 then (if IsLeap year then 29 else 28)
  else if month = 4 ∨ month = 6 ∨ month = 9 ∨ month = 11 then 30
  else 31

/-- The date is in the calendar. -/
def Date.IsValid (d : Date) : Prop :=
  1 ≤ d.month ∧ d.month ≤ 12 ∧ 1 ≤ d.day ∧ d.day ≤ monthLength d.year d.month

instance (d : Date) : Decidable d.IsValid := inferInstanceAs (Decidable (_ ∧ _))

/-- The days of the months before the given one. -/
def daysBeforeMonth (year month : Int) : Int :=
  [1, 2, 3, 4, 5, 6, 7, 8, 9, 10, 11].foldl
    (fun n m => if m < month then n + monthLength year m else n) 0

/-- The leap years up to and including `year`, counted from year 1. -/
def leapYearsThrough (year : Int) : Int := year / 4 - year / 100 + year / 400

/-- The number of a date's day, counted from 1 January 1970. -/
def Date.dayNumber (d : Date) : Int :=
  365 * (d.year - 1970) + (leapYearsThrough (d.year - 1) - leapYearsThrough 1969) +
    daysBeforeMonth d.year d.month + (d.day - 1)

/-- A moment: whole seconds since the epoch and thousandths of a second. -/
structure Instant where
  seconds : UInt64
  millis : UInt32
  deriving DecidableEq, Repr

namespace Instant

def date (t : Instant) : Date := .ofDays ((t.seconds.toNat / 86400 : Nat) : Int)

def hour (t : Instant) : Nat := t.seconds.toNat % 86400 / 3600

def minute (t : Instant) : Nat := t.seconds.toNat % 3600 / 60

def second (t : Instant) : Nat := t.seconds.toNat % 60

/-- Date and time of day with milliseconds, in universal time. -/
def text (t : Instant) : String :=
  let d := t.date
  Text.paddedDecimal 4 d.year.toNat ++ "-" ++ Text.paddedDecimal 2 d.month.toNat ++ "-" ++
    Text.paddedDecimal 2 d.day.toNat ++ "T" ++ Text.paddedDecimal 2 t.hour ++ ":" ++
    Text.paddedDecimal 2 t.minute ++ ":" ++ Text.paddedDecimal 2 t.second ++ "." ++
    Text.paddedDecimal 3 t.millis.toNat ++ "Z"

end Instant

example : (Date.ofDays 0).dayNumber = 0 ∧ (Date.ofDays 0).IsValid := by decide

example : Date.ofDays 11016 = ⟨2000, 2, 29⟩ ∧ (⟨2000, 2, 29⟩ : Date).dayNumber = 11016 := by
  decide

example : Date.ofDays (-719528) = ⟨0, 1, 1⟩ ∧ (⟨0, 1, 1⟩ : Date).dayNumber = -719528 := by
  decide

end Threading.Calendar
