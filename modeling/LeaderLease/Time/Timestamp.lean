import LeaderLease.Number.Decimal
import LeaderLease.Text.Blank
import LeaderLease.Time.Calendar

/-!
# Timestamps

A `Timestamp` is a moment of coordinated universal time with nanoseconds; second 60 is a leap
second. `Timestamp.text` writes the date, `T`, the time and `Z`, with the fewest of 0, 3, 6 or 9
fraction digits that are exact. `Timestamp.read` accepts more: blanks around the parts, one digit
where two are usual, a space or `t` for `T`, longer fractions, and an offset from universal time.
-/

set_option autoImplicit false

namespace LeaderLease

structure Timestamp where
  date : Date
  /-- Minute of the day. -/
  minute : Nat
  second : Nat
  nano : Nat
deriving DecidableEq, Repr

namespace Timestamp

/-- The moment exists, counting a sixty-first second in any minute. -/
def Valid (t : Timestamp) : Prop :=
  t.date.Valid ∧ t.minute < 1440 ∧ t.second ≤ 60 ∧ t.nano < Nat.pow 10 9

instance (t : Timestamp) : Decidable t.Valid := by unfold Valid; infer_instance

/-! ## Writing -/

/-- Four digits; years outside 0 to 9999 have a sign. -/
def yearText (year : Int) : List Char :=
  if 0 ≤ year ∧ year ≤ 9999 then Decimal.padded 4 year.natAbs
  else (if year < 0 then '-' else '+') :: Decimal.padded 4 year.natAbs

/-- The fewest of 0, 3, 6 and 9 digits that are exact. -/
def fractionText (nano : Nat) : List Char :=
  if nano = 0 then []
  else if nano % Nat.pow 10 6 = 0 then '.' :: Decimal.padded 3 (nano / Nat.pow 10 6)
  else if nano % Nat.pow 10 3 = 0 then '.' :: Decimal.padded 6 (nano / Nat.pow 10 3)
  else '.' :: Decimal.padded 9 nano

def text (t : Timestamp) : List Char :=
  yearText t.date.year ++ '-' :: Decimal.padded 2 t.date.month ++ '-' ::
    Decimal.padded 2 t.date.day ++ 'T' :: Decimal.padded 2 (t.minute / 60) ++ ':' ::
    Decimal.padded 2 (t.minute % 60) ++ ':' :: Decimal.padded 2 t.second ++
    fractionText t.nano ++ ['Z']

/-! ## Reading -/

/-- A number of at least one and at most `most` digits, and what follows it. -/
def readNumber (most : Nat) (cs : List Char) : Option (Nat × List Char) :=
  let ds := (cs.takeWhile Char.isDigit).take most
  if ds = [] then none else some (Decimal.value ds, cs.drop ds.length)

/-- A signed year has any number of digits, an unsigned one at most four. -/
def readYear : List Char → Option (Int × List Char)
  | '-' :: cs => (readNumber cs.length cs).map fun (n, rest) => (-(n : Int), rest)
  | '+' :: cs => (readNumber cs.length cs).map fun (n, rest) => ((n : Int), rest)
  | cs => (readNumber 4 cs).map fun (n, rest) => ((n : Int), rest)

/-- A separator with blanks on either side, then a number of one or two digits. -/
def readPart (separator : Char) (cs : List Char) : Option (Nat × List Char) :=
  match Text.trimStart cs with
  | c :: rest => if c = separator then readNumber 2 (Text.trimStart rest) else none
  | [] => none

def readDate (cs : List Char) : Option (Date × List Char) := do
  let (year, rest) ← readYear (Text.trimStart cs)
  let (month, rest) ← readPart '-' rest
  let (day, rest) ← readPart '-' rest
  let date : Date := ⟨year, month, day⟩
  if date.Valid then some (date, rest) else none

/-- Nanoseconds from a fraction of any length; digits after the ninth are dropped. -/
def readFraction : List Char → Option (Nat × List Char)
  | '.' :: cs =>
    let ds := cs.takeWhile Char.isDigit
    let kept := ds.take 9
    if ds = [] then none
    else some (Decimal.value kept * Nat.pow 10 (9 - kept.length), cs.drop ds.length)
  | cs => some (0, cs)

/-- Minute of the day, second and nanosecond. -/
def readTime (cs : List Char) : Option ((Nat × Nat × Nat) × List Char) := do
  let (hour, rest) ← readNumber 2 (Text.trimStart cs)
  let (minute, rest) ← readPart ':' rest
  let (second, rest) ← readPart ':' rest
  let (nano, rest) ← readFraction rest
  if hour ≤ 23 ∧ minute ≤ 59 ∧ second ≤ 60 then some ((hour * 60 + minute, second, nano), rest)
  else none

/-- Two digits of an hour, colons or blanks, and two digits of a minute, in minutes. -/
def readShift : List Char → Option (Nat × List Char)
  | a :: b :: cs =>
    match cs.dropWhile fun c => c = ':' || Text.isBlank c with
    | c :: d :: rest =>
      if a.isDigit ∧ b.isDigit ∧ c.isDigit ∧ d.isDigit ∧
          Decimal.value [a, b] ≤ 23 ∧ Decimal.value [c, d] ≤ 59 then
        some (Decimal.value [a, b] * 60 + Decimal.value [c, d], rest)
      else none
    | _ => none
  | _ => none

/-- Minutes by which local time is ahead of universal time: `Z`, `UTC`, or a sign and a shift. -/
def readOffset : List Char → Option (Int × List Char)
  | '+' :: cs => (readShift cs).map fun (n, rest) => ((n : Int), rest)
  | '-' :: cs => (readShift cs).map fun (n, rest) => (-(n : Int), rest)
  | '−' :: cs => (readShift cs).map fun (n, rest) => (-(n : Int), rest)
  | c :: cs =>
    if c = 'Z' ∨ c = 'z' then some (0, cs)
    else if ((c :: cs).take 3).map Char.toLower = ['u', 't', 'c'] then some (0, (c :: cs).drop 3)
    else none
  | [] => none

/-- A local date and minute of the day, moved to universal time. -/
def toUniversal (date : Date) (minute : Nat) (offset : Int) : Option (Date × Nat) :=
  let moved := (minute : Int) - offset
  if moved < 0 then date.previous.map fun d => (d, (moved + 1440).toNat)
  else if 1440 ≤ moved then date.next.map fun d => (d, (moved - 1440).toNat)
  else some (date, moved.toNat)

def read (cs : List Char) : Option Timestamp := do
  let (date, rest) ← readDate cs
  let rest ← match rest with
    | c :: rest => if c = 'T' ∨ c = 't' ∨ c = ' ' then some rest else none
    | [] => none
  let ((minute, second, nano), rest) ← readTime rest
  let (offset, rest) ← readOffset (Text.trimStart rest)
  if Text.trimStart rest = [] then
    (toUniversal date minute offset).map fun (date, minute) => ⟨date, minute, second, nano⟩
  else none

/-! ## Counting from 1970 -/

/-- The moment a number of seconds after 1970-01-01T00:00:00Z. -/
def ofUnix (seconds : Int) (nano : Nat) : Timestamp :=
  let rest := (seconds % 86400).toNat
  ⟨Date.ofDayNumber (seconds / 86400), rest / 60, rest % 60, nano⟩

/-- Seconds since 1970-01-01T00:00:00Z, fraction dropped. -/
def unixSeconds (t : Timestamp) : Int :=
  t.date.dayNumber * 86400 + (t.minute : Int) * 60 + (min t.second 59 : Nat)

end Timestamp

end LeaderLease
