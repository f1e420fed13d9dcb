/-!
# Calendar dates

Dates of the proleptic Gregorian calendar with a year zero. `Date.next` and `Date.previous` step to
the neighbouring day inside the supported years, and `Date.ofDayNumber` counts days from 1970-01-01.
-/

set_option autoImplicit false

namespace LeaderLease

structure Date where
  year : Int
  month : Nat
  day : Nat
deriving DecidableEq, Repr

namespace Date

def minYear : Int := -262143

def maxYear : Int := 262142

def isLeapYear (year : Int) : Bool :=
  year % 4 = 0 && (year % 100 ≠ 0 || year % 400 = 0)

def daysInMonth (year : Int) (month : Nat) : Nat :=
  if month = 2 then (if isLeapYear year then 29 else 28)
  else if month = 4 ∨ month = 6 ∨ month = 9 ∨ month = 11 then 30
  else 31

/-- The date exists and its year is supported. -/
def Valid (d : Date) : Prop :=
  minYear ≤ d.year ∧ d.year ≤ maxYear ∧ 1 ≤ d.month ∧ d.month ≤ 12 ∧
    1 ≤ d.day ∧ d.day ≤ daysInMonth d.year d.month

instance (d : Date) : Decidable d.Valid := by unfold Valid; infer_instance

def next (d : Date) : Option Date :=
  if d.day < daysInMonth d.year d.month then some ⟨d.year, d.month, d.day + 1⟩
  else if d.month < 12 then some ⟨d.year, d.month + 1, 1⟩
  else if d.year < maxYear then some ⟨d.year + 1, 1, 1⟩
  else none

def previous (d : Date) : Option Date :=
  if 1 < d.day then some ⟨d.year, d.month, d.day - 1⟩
  else if 1 < d.month then some ⟨d.year, d.month - 1, daysInMonth d.year (d.month - 1)⟩
  else if minYear < d.year then some ⟨d.year - 1, 12, 31⟩
  else none

/-- Days since 1970-01-01. The year is counted from March, so a leap day is its last day. -/
def dayNumber (d : Date) : Int :=
  let year := if d.month ≤ 2 then d.year - 1 else d.year
  let era := year / 400
  let yearOfEra := year - era * 400
  let month : Int := ((d.month : Int) + 9) % 12
  let dayOfYear := (153 * month + 2) / 5 + (d.day : Int) - 1
  era * 146097 + (yearOfEra * 365 + yearOfEra / 4 - yearOfEra / 100 + dayOfYear) - 719468

/-- The date with a given number of days since 1970-01-01. -/
def ofDayNumber (n : Int) : Date :=
  let shifted := n + 719468
  let era := shifted / 146097
  let dayOfEra := shifted - era * 146097
  let yearOfEra := (dayOfEra - dayOfEra / 1460 + dayOfEra / 36524 - dayOfEra / 146096) / 365
  let dayOfYear := dayOfEra - (365 * yearOfEra + yearOfEra / 4 - yearOfEra / 100)
  let fromMarch := (5 * dayOfYear + 2) / 153
  let day := dayOfYear - (153 * fromMarch + 2) / 5 + 1
  let month := if fromMarch < 10 then fromMarch + 3 else fromMarch - 9
  let year := yearOfEra + era * 400
  ⟨if month ≤ 2 then year + 1 else year, month.toNat, day.toNat⟩

theorem Valid.next {d e : Date} (h : d.Valid) (step : d.next = some e) : e.Valid := by
  obtain ⟨low, high, monthLow, monthHigh, dayLow, dayHigh⟩ := h
  unfold Date.next at step
  split at step
  · cases step; refine ⟨low, high, monthLow, monthHigh, ?_, ?_⟩ <;> dsimp only <;> omega
  · split at step
    · cases step
      refine ⟨low, high, ?_, ?_, ?_, ?_⟩ <;> dsimp only [daysInMonth] <;> (repeat' split) <;> omega
    · split at step
      · cases step
        refine ⟨?_, ?_, ?_, ?_, ?_, ?_⟩ <;> dsimp only [daysInMonth] <;> (repeat' split) <;> omega
      · cases step

theorem Valid.previous {d e : Date} (h : d.Valid) (step : d.previous = some e) : e.Valid := by
  obtain ⟨low, high, monthLow, monthHigh, dayLow, dayHigh⟩ := h
  unfold Date.previous at step
  split at step
  · cases step; refine ⟨low, high, monthLow, monthHigh, ?_, ?_⟩ <;> dsimp only <;> omega
  · split at step
    · cases step
      refine ⟨low, high, ?_, ?_, ?_, ?_⟩ <;> dsimp only [daysInMonth] <;> (repeat' split) <;> omega
    · split at step
      · cases step
        refine ⟨?_, ?_, ?_, ?_, ?_, ?_⟩ <;> dsimp only [daysInMonth] <;> (repeat' split) <;> omega
      · cases step

end Date

end LeaderLease
