import LeaderLease.Number.Decimal

/-!
# Durations

A length of time in whole nanoseconds. `Duration.limit` is the first length whose seconds need more
than 64 bits. `text` writes a length in its largest unit, so a text like `1.5s` names one duration.
-/

set_option autoImplicit false

namespace LeaderLease

structure Duration where
  nanos : Nat
deriving DecidableEq, Repr

namespace Duration

def perSecond : Nat := Nat.pow 10 9

def perMilli : Nat := Nat.pow 10 6

/-- The first length whose seconds do not fit 64 bits. -/
def limit : Nat := Nat.pow 2 64 * perSecond

def ofParts (seconds nanos : Nat) : Duration := ⟨seconds * perSecond + nanos⟩

def ofSeconds (seconds : Nat) : Duration := ⟨seconds * perSecond⟩

def ofMillis (millis : Nat) : Duration := ⟨millis * perMilli⟩

/-- Whole seconds. -/
def seconds (d : Duration) : Nat := d.nanos / perSecond

/-- Nanoseconds beyond the whole seconds. -/
def subsecond (d : Duration) : Nat := d.nanos % perSecond

/-- Half the length, rounded down to a nanosecond. -/
def half (d : Duration) : Duration := ⟨d.nanos / 2⟩

theorem ofParts_seconds_subsecond (d : Duration) : ofParts d.seconds d.subsecond = d := by
  simp only [ofParts, seconds, subsecond]
  rw [Nat.div_add_mod']

/-- The units of a written duration: the power of ten of nanoseconds, and the sign. -/
def units : List (Nat × String) := [(9, "s"), (6, "ms"), (3, "µs")]

/-- The fraction digits of a remainder, without trailing zeros, behind a point if any are left. -/
def fractionText (places remainder : Nat) : List Char :=
  match ((Decimal.padded places remainder).reverse.dropWhile (· = '0')).reverse with
  | [] => []
  | ds => if remainder = 0 then [] else '.' :: ds

/-- A duration in the largest unit that it reaches, nanoseconds at the least. -/
def text (d : Duration) : String :=
  match units.find? fun unit => decide (Nat.pow 10 unit.1 ≤ d.nanos) with
  | some (places, sign) =>
    String.ofList (Decimal.digits (d.nanos / Nat.pow 10 places) ++
      fractionText places (d.nanos % Nat.pow 10 places)) ++ sign
  | none => String.ofList (Decimal.digits d.nanos) ++ "ns"

end Duration

end LeaderLease
