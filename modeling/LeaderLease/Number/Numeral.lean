import LeaderLease.Number.Decimal

/-!
# Written numbers

A `Numeral` is a decimal number as it is written: digits before and after the point, and the text of
an exponent. `Numeral.read` takes the longest numeral at the start of a text; a leading zero must
stand alone, and a point and an exponent mark need digits behind them.
-/

set_option autoImplicit false

namespace LeaderLease

structure Numeral where
  negative : Bool
  whole : List Char
  /-- Digits behind the point; empty when there is no point. -/
  fraction : List Char
  /-- Digits of the exponent with its sign, if it has one; empty when there is no exponent. -/
  exponent : List Char
deriving DecidableEq, Repr

namespace Numeral

def ofInt (i : Int) : Numeral := ⟨i < 0, Decimal.digits i.natAbs, [], []⟩

def ofNat (n : Nat) : Numeral := ⟨false, Decimal.digits n, [], []⟩

def text (n : Numeral) : List Char :=
  (if n.negative then ['-'] else []) ++ n.whole ++
    (if n.fraction = [] then [] else '.' :: n.fraction) ++
    (if n.exponent = [] then [] else 'e' :: n.exponent)

/-- A whole number, with neither point nor exponent. -/
def isInteger (n : Numeral) : Bool := n.fraction = [] && n.exponent = []

/-- The whole number that the digits denote. An integer zero has no sign. -/
def toInt? (n : Numeral) : Option Int :=
  if n.isInteger then
    if n.negative then
      if Decimal.value n.whole = 0 then none else some (-(Decimal.value n.whole : Int))
    else some (Decimal.value n.whole)
  else none

/-- A natural number below `bound`. -/
def toNatBelow? (bound : Nat) (n : Numeral) : Option Nat :=
  if n.isInteger ∧ n.negative = false ∧ Decimal.value n.whole < bound then
    some (Decimal.value n.whole)
  else none

/-- The power of ten that the exponent names. -/
def exponentValue (n : Numeral) : Int :=
  match n.exponent with
  | '-' :: ds => -(Decimal.value ds : Int)
  | '+' :: ds => Decimal.value ds
  | ds => Decimal.value ds

/-! ## Reading -/

def span (cs : List Char) : List Char × List Char :=
  (cs.takeWhile Char.isDigit, cs.dropWhile Char.isDigit)

/-- The digits before the point. -/
def readWhole : List Char → Option (List Char × List Char)
  | '0' :: cs => some (['0'], cs)
  | cs => if (span cs).1 = [] then none else some (span cs)

def readFraction : List Char → Option (List Char × List Char)
  | '.' :: cs => if (span cs).1 = [] then none else some (span cs)
  | cs => some ([], cs)

def readSign : List Char → List Char × List Char
  | '+' :: cs => (['+'], cs)
  | '-' :: cs => (['-'], cs)
  | cs => ([], cs)

def readExponent : List Char → Option (List Char × List Char)
  | c :: cs =>
    if c = 'e' ∨ c = 'E' then
      let (sign, rest) := readSign cs
      if (span rest).1 = [] then none else some (sign ++ (span rest).1, (span rest).2)
    else some ([], c :: cs)
  | [] => some ([], [])

def readUnsigned (negative : Bool) (cs : List Char) : Option (Numeral × List Char) := do
  let (whole, rest) ← readWhole cs
  let (fraction, rest) ← readFraction rest
  let (exponent, rest) ← readExponent rest
  some (⟨negative, whole, fraction, exponent⟩, rest)

def read : List Char → Option (Numeral × List Char)
  | '-' :: cs => readUnsigned true cs
  | cs => readUnsigned false cs

end Numeral

end LeaderLease
