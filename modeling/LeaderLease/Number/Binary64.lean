/-!
# Binary64 numbers

The double-precision format over exact integers. A finite magnitude is `mantissa * 2 ^ exponent`,
and `Magnitude.nearest` rounds a quotient of naturals to the nearest one, ties to the even mantissa.
Naturals below `2 ^ 53` are rounded to themselves, so they stay apart; `2 ^ 53 + 1` is the first
that is not kept.
-/

set_option autoImplicit false

namespace LeaderLease

/-- A finite binary64 magnitude: the mantissa is below `2 ^ 53`, and below `2 ^ 52` only at the
least exponent, so equal numbers have equal parts. -/
structure Magnitude where
  mantissa : Nat
  exponent : Int
deriving DecidableEq, Repr

namespace Magnitude

def minExponent : Int := -1074

def maxExponent : Int := 971

def zero : Magnitude := ⟨0, minExponent⟩

/-- The integer nearest to `num / den`, ties to the even one. -/
def roundDiv (num den : Nat) : Nat :=
  let q := num / den
  let twice := 2 * (num % den)
  if twice < den then q else if den < twice then q + 1 else if q % 2 = 0 then q else q + 1

/-- `num / den` divided by `2 ^ e`, as a quotient. -/
def shifted (num den : Nat) (e : Int) : Nat × Nat :=
  if 0 ≤ e then (num, den * Nat.pow 2 e.toNat) else (num * Nat.pow 2 (-e).toNat, den)

/-- The magnitude nearest to `num / den`; nothing when it lies beyond the largest one. -/
def nearest (num den : Nat) : Option Magnitude :=
  if num = 0 then some zero
  else
    let top : Int := (num.log2 : Int) - (den.log2 : Int)
    let aligned := shifted num den top
    let e := max minExponent (if aligned.2 ≤ aligned.1 then top - 52 else top - 53)
    let scaled := shifted num den e
    let m := roundDiv scaled.1 scaled.2
    let rounded : Magnitude := if m = Nat.pow 2 53 then ⟨Nat.pow 2 52, e + 1⟩ else ⟨m, e⟩
    if maxExponent < rounded.exponent then none else some rounded

/-- The magnitude nearest to a natural number. -/
def ofNat (n : Nat) : Option Magnitude := nearest n 1

/-- A magnitude as a quotient of naturals. -/
def quotient (x : Magnitude) : Nat × Nat :=
  if 0 ≤ x.exponent then (x.mantissa * Nat.pow 2 x.exponent.toNat, 1)
  else (x.mantissa, Nat.pow 2 (-x.exponent).toNat)

def mul (x y : Magnitude) : Option Magnitude :=
  nearest (x.quotient.1 * y.quotient.1) (x.quotient.2 * y.quotient.2)

/-- The divisor must not be zero. -/
def div (x y : Magnitude) : Option Magnitude :=
  nearest (x.quotient.1 * y.quotient.2) (x.quotient.2 * y.quotient.1)

end Magnitude

/-- A binary64 number. -/
inductive Binary64 where
  | finite (negative : Bool) (size : Magnitude)
  | infinite (negative : Bool)
  | nan
deriving DecidableEq, Repr

namespace Binary64

/-- The number nearest to `num / den` with the given sign. -/
def ofQuotient (negative : Bool) (num den : Nat) : Binary64 :=
  match Magnitude.nearest num den with
  | some size => .finite negative size
  | none => .infinite negative

def ofInt (i : Int) : Binary64 := ofQuotient (i < 0) i.natAbs 1

/-- Numeric equality: the two zeros are equal and a NaN equals nothing. -/
def same : Binary64 → Binary64 → Bool
  | .finite s x, .finite t y => x = y && (s = t || x.mantissa = 0)
  | .infinite s, .infinite t => s = t
  | _, _ => false

end Binary64

end LeaderLease
