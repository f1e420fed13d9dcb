import LeaderLease.Number.Binary64
import LeaderLease.Number.Numeral

/-!
# Shortest decimal text of a binary64 number

`Magnitude.shortest` gives the fewest significant digits that are rounded back to the magnitude, and
among those the nearest. For each count of digits the two neighbours of the magnitude on that
decimal grid are tried in exact arithmetic; if any point of a grid is rounded to it, one of them is.
`NumberFormat` holds the decisions of a written form.
-/

set_option autoImplicit false

namespace LeaderLease

/-- The digits `d₁ d₂ … dₙ` and the power of ten `exponent` of the first one. -/
structure Scientific where
  significand : List Char
  exponent : Int
deriving DecidableEq, Repr

namespace Magnitude

/-- Comparison of two quotients of naturals. -/
def quotientLe (x y : Nat × Nat) : Bool := x.1 * y.2 ≤ y.1 * x.2

/-- `n * 10 ^ e` as a quotient. -/
def tenfold (n : Nat) (e : Int) : Nat × Nat :=
  if 0 ≤ e then (n * Nat.pow 10 e.toNat, 1) else (n, Nat.pow 10 (-e).toNat)

/-- The least `k` with `den ≤ num * 10 ^ k`, searched upwards from the given start. -/
def liftCount (num den : Nat) : Nat → Nat → Nat
  | 0, k => k
  | fuel + 1, k => if den ≤ num * Nat.pow 10 k then k else liftCount num den fuel (k + 1)

/-- The power of ten of the first significant digit of `num / den`. -/
def leadingPower (num den : Nat) : Int :=
  if den ≤ num then ((Decimal.digits (num / den)).length : Int) - 1
  else -(liftCount num den 400 1 : Int)

/-- Whether `candidate` is rounded to `x`. The ends of the interval belong to it when the mantissa
is even; below a power of two the lower half is half as wide. -/
def roundsTo (x : Magnitude) (candidate : Nat × Nat) : Bool :=
  let half : Nat := if x.mantissa = Nat.pow 2 52 ∧ minExponent < x.exponent then 1 else 2
  let low := (Magnitude.mk (4 * x.mantissa - half) (x.exponent - 2)).quotient
  let high := (Magnitude.mk (4 * x.mantissa + 2) (x.exponent - 2)).quotient
  if x.mantissa % 2 = 0 then quotientLe low candidate && quotientLe candidate high
  else !quotientLe candidate low && !quotientLe high candidate

/-- The point with `count` significant digits that is rounded to `x`, the nearer if there are two
and the even one if both are equally near. -/
def neighbour (x : Magnitude) (power : Int) (count : Nat) : Option (Nat × Int) :=
  let unit := power - (count : Int) + 1
  let q := x.quotient
  let grid :=
    if 0 ≤ unit then (q.1, q.2 * Nat.pow 10 unit.toNat)
    else (q.1 * Nat.pow 10 (-unit).toNat, q.2)
  let lower := grid.1 / grid.2
  let nearer := roundDiv grid.1 grid.2
  let farther := if nearer = lower then lower + 1 else lower
  if roundsTo x (tenfold nearer unit) then some (nearer, unit)
  else if roundsTo x (tenfold farther unit) then some (farther, unit)
  else none

def dropTrailingZeros (cs : List Char) : List Char := (cs.reverse.dropWhile (· = '0')).reverse

/-- The shortest digits that are rounded back to `x`; zero is the single digit `0`. -/
def shortest (x : Magnitude) : Scientific :=
  if x.mantissa = 0 then ⟨['0'], 0⟩
  else
    let q := x.quotient
    let power := leadingPower q.1 q.2
    match (List.range 17).findSome? fun k => neighbour x power (k + 1) with
    | none => ⟨['0'], 0⟩
    | some (n, unit) =>
      let ds := Decimal.digits n
      ⟨dropTrailingZeros ds, (ds.length : Int) - 1 + unit⟩

end Magnitude

/-- How a number is written: the powers of ten between which the point is placed among the digits,
and the least number of digits of an exponent, which always has a sign. -/
structure NumberFormat where
  leastPositional : Int
  greatestPositional : Int
  exponentWidth : Nat

namespace NumberFormat

/-- Digits with the point behind the one of power zero; whole numbers end in `.0`. -/
def positional (negative : Bool) (s : Scientific) : Numeral :=
  let ds := s.significand
  if s.exponent < 0 then
    ⟨negative, ['0'], List.replicate ((-s.exponent).toNat - 1) '0' ++ ds, []⟩
  else
    let whole := s.exponent.toNat + 1
    if ds.length ≤ whole then ⟨negative, ds ++ List.replicate (whole - ds.length) '0', ['0'], []⟩
    else ⟨negative, ds.take whole, ds.drop whole, []⟩

/-- One digit, the point and the others if there are any, and the exponent. -/
def exponential (width : Nat) (negative : Bool) (s : Scientific) : Numeral :=
  ⟨negative, s.significand.take 1, s.significand.drop 1,
    (if s.exponent < 0 then '-' else '+') :: Decimal.padded width s.exponent.natAbs⟩

def write (f : NumberFormat) (negative : Bool) (x : Magnitude) : Numeral :=
  let s := x.shortest
  if f.leastPositional ≤ s.exponent ∧ s.exponent ≤ f.greatestPositional then positional negative s
  else exponential f.exponentWidth negative s

end NumberFormat

end LeaderLease
