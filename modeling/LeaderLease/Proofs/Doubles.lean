import LeaderLease.Number.Binary64
import Mathlib.Algebra.Group.Nat.Defs

/-!
# Whole numbers as binary64 numbers

A natural number below `2 ^ 53` is kept as it is (`Magnitude.ofNat_of_lt`), and what a larger one is
rounded to has a positive exponent, so the smaller one is taken for no other natural number
(`Binary64.same_ofInt_iff`).
-/

set_option autoImplicit false

namespace LeaderLease

namespace Magnitude

theorem roundDiv_one (n : Nat) : roundDiv n 1 = n := by
  simp [roundDiv, Nat.mod_one]

/-- A natural number is rounded to a mantissa of 53 bits. -/
theorem ofNat_of_pos {n : Nat} (positive : 0 < n) :
    ofNat n =
      let e : Int := n.log2 - 52
      let m := roundDiv (shifted n 1 e).1 (shifted n 1 e).2
      let rounded : Magnitude := if m = Nat.pow 2 53 then ⟨Nat.pow 2 52, e + 1⟩ else ⟨m, e⟩
      if maxExponent < rounded.exponent then none else some rounded := by
  have one : Nat.log2 1 = 0 := by decide
  have aligned : (shifted n 1 n.log2).2 ≤ (shifted n 1 n.log2).1 := by
    simp only [shifted, Nat.pow_eq, Int.natCast_nonneg, if_true, Int.toNat_natCast, Nat.one_mul]
    exact Nat.log2_self_le (by omega)
  have bound : minExponent ≤ (n.log2 : Int) - 52 := by
    simp only [minExponent]
    omega
  have normal : max minExponent ((n.log2 : Int) - 52) = n.log2 - 52 := Int.max_eq_right bound
  simp only [ofNat, nearest, if_neg (Nat.ne_of_gt positive), one, Int.natCast_zero, Int.sub_zero,
    if_pos aligned, normal]

theorem log2_le_of_lt {n : Nat} (positive : 0 < n) (small : n < 2 ^ 53) : n.log2 ≤ 52 :=
  Nat.lt_succ_iff.mp ((Nat.log2_lt (Nat.ne_of_gt positive)).mpr small)

/-- A natural number below `2 ^ 53` is kept. -/
theorem ofNat_of_lt {n : Nat} (positive : 0 < n) (small : n < 2 ^ 53) :
    ofNat n = some ⟨n * 2 ^ (52 - n.log2), n.log2 - 52⟩ := by
  have top := log2_le_of_lt positive small
  have mantissa : roundDiv (shifted n 1 (n.log2 - 52)).1 (shifted n 1 (n.log2 - 52)).2 =
      n * 2 ^ (52 - n.log2) := by
    unfold shifted
    split
    · have full : n.log2 = 52 := by omega
      simp [full, roundDiv_one]
    · have places : (-((n.log2 : Int) - 52)).toNat = 52 - n.log2 := by omega
      simp only [places, roundDiv_one, Nat.pow_eq]
  have below : n * 2 ^ (52 - n.log2) < 2 ^ 53 := by
    calc n * 2 ^ (52 - n.log2)
        < 2 ^ (n.log2 + 1) * 2 ^ (52 - n.log2) :=
          Nat.mul_lt_mul_of_pos_right Nat.lt_log2_self (Nat.two_pow_pos _)
      _ = 2 ^ 53 := by rw [← Nat.pow_add]; congr 1; omega
  rw [ofNat_of_pos positive]
  simp only [mantissa, Nat.pow_eq, if_neg (Nat.ne_of_lt below)]
  rw [if_neg (by rw [maxExponent]; omega)]

/-- A natural number from `2 ^ 53` on is rounded to a multiple of two. -/
theorem exponent_pos {n : Nat} (large : 2 ^ 53 ≤ n) {x : Magnitude} (rounded : ofNat n = some x) :
    0 < x.exponent := by
  have positive : 0 < n := Nat.lt_of_lt_of_le (by decide) large
  have top : 53 ≤ n.log2 := (Nat.le_log2 (Nat.ne_of_gt positive)).mpr large
  rw [ofNat_of_pos positive] at rounded
  simp only [Option.ite_none_left_eq_some, Option.some.injEq] at rounded
  obtain ⟨-, rfl⟩ := rounded
  split <;> dsimp only <;> omega

/-- Below `2 ^ 53` different natural numbers stay different. -/
theorem ofNat_inj {a b : Nat} (smallA : a < 2 ^ 53) (smallB : b < 2 ^ 53)
    (same : ofNat a = ofNat b) : a = b := by
  have nothing : ofNat 0 = some zero := rfl
  have some_pos : ∀ n, 0 < n → n < 2 ^ 53 → ofNat n ≠ some zero := by
    intro n positive small zeroed
    rw [ofNat_of_lt positive small] at zeroed
    have mantissa : n * 2 ^ (52 - n.log2) = 0 :=
      congrArg Magnitude.mantissa (Option.some.inj zeroed)
    have more : 0 < n * 2 ^ (52 - n.log2) := Nat.mul_pos positive (Nat.two_pow_pos _)
    omega
  rcases Nat.eq_zero_or_pos a with rfl | positiveA
  · rcases Nat.eq_zero_or_pos b with rfl | positiveB
    · rfl
    · exact absurd (same.symm.trans nothing) (some_pos b positiveB smallB)
  rcases Nat.eq_zero_or_pos b with rfl | positiveB
  · exact absurd (same.trans nothing) (some_pos a positiveA smallA)
  rw [ofNat_of_lt positiveA smallA, ofNat_of_lt positiveB smallB, Option.some.injEq,
    Magnitude.mk.injEq] at same
  obtain ⟨mantissas, exponents⟩ := same
  have tops : a.log2 = b.log2 := by omega
  rw [tops] at mantissas
  exact Nat.eq_of_mul_eq_mul_right (Nat.two_pow_pos _) mantissas

end Magnitude

namespace Binary64

theorem ofInt_natCast (n : Nat) : ofInt n =
    match Magnitude.ofNat n with
    | some size => .finite false size
    | none => .infinite false := by
  have sign : decide ((n : Int) < 0) = false := decide_eq_false (by omega)
  rw [ofInt, sign, Int.natAbs_natCast]
  rfl

/-- A natural number below `2 ^ 53` is taken for no other one. -/
theorem same_ofInt_iff {a : Nat} (small : a < 2 ^ 53) (b : Nat) :
    (ofInt a).same (ofInt b) = true ↔ a = b := by
  constructor
  · intro same
    have kept : ∃ x, Magnitude.ofNat a = some x ∧ x.exponent ≤ 0 := by
      rcases Nat.eq_zero_or_pos a with rfl | positive
      · exact ⟨_, rfl, by decide⟩
      · have top := Magnitude.log2_le_of_lt positive small
        exact ⟨_, Magnitude.ofNat_of_lt positive small, by dsimp only; omega⟩
    obtain ⟨x, ofA, whole⟩ := kept
    rw [ofInt_natCast, ofInt_natCast, ofA] at same
    cases ofB : Magnitude.ofNat b with
    | none =>
        rw [ofB] at same
        cases same
    | some y =>
        rw [ofB] at same
        have equal : x = y := by simpa [Binary64.same] using same
        by_cases smallB : b < 2 ^ 53
        · exact Magnitude.ofNat_inj small smallB (by rw [ofA, ofB, equal])
        · have larger := Magnitude.exponent_pos (Nat.le_of_not_lt smallB) ofB
          rw [← equal] at larger
          omega
  · rintro rfl
    rw [ofInt_natCast]
    cases Magnitude.ofNat a <;> simp [Binary64.same]

end Binary64

end LeaderLease
