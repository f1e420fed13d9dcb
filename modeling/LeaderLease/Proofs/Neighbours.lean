import LeaderLease.Proofs.Doubles

/-!
# Natural numbers that share a binary64 number

A number of more than 53 bits keeps its upper 53, rounded by those behind them (`Magnitude.ofNat_up`,
`Magnitude.ofNat_down`). So it shares its binary64 number with another natural number, with one
exception (`Magnitude.exists_twin`): of 54 bits the last one is lost, and a number that ends in `10`
lies between two that are rounded away from it. `Binary64.alone_iff` says which numbers of 64 bits
are told apart from all others.
-/

set_option autoImplicit false

namespace LeaderLease

namespace Magnitude

/-- A mantissa with its exponent. The first one of 54 bits takes the next exponent. -/
def carried (m : Nat) (e : Int) : Magnitude := if m = 2 ^ 53 then ⟨2 ^ 52, e + 1⟩ else ⟨m, e⟩

theorem eq_of_carried_eq {p m : Nat} {e e' : Int} (more : m ≠ 2 ^ 52)
    (same : carried p e = ⟨m, e'⟩) : p = m ∧ e = e' := by
  unfold carried at same
  split at same
  · exact absurd (congrArg Magnitude.mantissa same).symm more
  · exact Magnitude.mk.inj same

/-- The remainder `r` of a division by `d` rounds the quotient `q` up. -/
def RoundsUp (d q r : Nat) : Prop := d < 2 * r ∨ d = 2 * r ∧ q % 2 = 1

instance (d q r : Nat) : Decidable (RoundsUp d q r) := inferInstanceAs (Decidable (_ ∨ _))

theorem roundDiv_block {d r : Nat} (q : Nat) (inRange : r < d) :
    roundDiv (d * q + r) d = if RoundsUp d q r then q + 1 else q := by
  have quotient : (d * q + r) / d = q := by
    rw [Nat.mul_add_div (by omega), Nat.div_eq_of_lt inRange, Nat.add_zero]
  have remainder : (d * q + r) % d = r := by rw [Nat.mul_add_mod, Nat.mod_eq_of_lt inRange]
  simp only [roundDiv, quotient, remainder]
  by_cases up : RoundsUp d q r
  · rw [if_pos up]
    rcases up with more | ⟨tie, odd⟩
    · rw [if_neg (by omega), if_pos more]
    · rw [if_neg (by omega), if_neg (by omega), if_neg (by omega)]
  · rw [if_neg up]
    obtain ⟨most, even⟩ := not_or.mp up
    by_cases less : 2 * r < d
    · rw [if_pos less]
    · rw [if_neg less, if_neg most, if_pos (by omega)]

theorem not_roundsUp_zero {d : Nat} (positive : 0 < d) (q : Nat) : ¬ RoundsUp d q 0 := by
  rintro (more | ⟨tie, -⟩) <;> omega

/-- A number whose upper 53 bits are `q`, with `k` more behind them. -/
theorem ofNat_block {q r k : Nat} (low : 2 ^ 52 ≤ q) (high : q < 2 ^ 53) (inRange : r < 2 ^ k)
    (finite : k < 900) :
    ofNat (2 ^ k * q + r) = some (carried (if RoundsUp (2 ^ k) q r then q + 1 else q) k) := by
  have positive : 0 < 2 ^ k := Nat.two_pow_pos k
  have atLeast : 2 ^ (52 + k) ≤ 2 ^ k * q + r := by
    calc 2 ^ (52 + k) = 2 ^ k * 2 ^ 52 := by rw [Nat.pow_add, Nat.mul_comm]
      _ ≤ 2 ^ k * q := Nat.mul_le_mul_left _ low
      _ ≤ 2 ^ k * q + r := Nat.le_add_right _ _
  have below : 2 ^ k * q + r < 2 ^ (52 + k + 1) := by
    calc 2 ^ k * q + r < 2 ^ k * (q + 1) := by rw [Nat.mul_succ]; omega
      _ ≤ 2 ^ k * 2 ^ 53 := Nat.mul_le_mul_left _ high
      _ = 2 ^ (52 + k + 1) := by rw [← Nat.pow_add]; congr 1; omega
  have some : 0 < 2 ^ k * q + r := Nat.lt_of_lt_of_le (Nat.two_pow_pos _) atLeast
  have top : (2 ^ k * q + r).log2 = 52 + k :=
    (Nat.log2_eq_iff (Nat.ne_of_gt some)).mpr ⟨atLeast, below⟩
  have exponent : ((2 ^ k * q + r).log2 : Int) - 52 = k := by omega
  have scaled : shifted (2 ^ k * q + r) 1 k = (2 ^ k * q + r, 2 ^ k) := by
    simp [shifted]
  rw [ofNat_of_pos some]
  simp only [exponent, scaled, roundDiv_block q inRange, Nat.pow_eq]
  rw [carried]
  refine if_neg ?_
  simp only [maxExponent]
  split <;> split <;> dsimp only <;> omega

theorem ofNat_up {q r k : Nat} (low : 2 ^ 52 ≤ q) (high : q < 2 ^ 53) (inRange : r < 2 ^ k)
    (finite : k < 900) (up : RoundsUp (2 ^ k) q r) :
    ofNat (2 ^ k * q + r) = some (carried (q + 1) k) := by
  rw [ofNat_block low high inRange finite, if_pos up]

theorem ofNat_down {q r k : Nat} (low : 2 ^ 52 ≤ q) (high : q < 2 ^ 53) (inRange : r < 2 ^ k)
    (finite : k < 900) (down : ¬ RoundsUp (2 ^ k) q r) :
    ofNat (2 ^ k * q + r) = some (carried q k) := by
  rw [ofNat_block low high inRange finite, if_neg down]

/-- A number that is rounded up is taken for the next one with no bits behind its upper 53. -/
theorem ofNat_next {q k : Nat} (low : 2 ^ 52 ≤ q) (high : q < 2 ^ 53) (finite : k < 899) :
    ofNat (2 ^ k * (q + 1)) = some (carried (q + 1) k) := by
  rcases Nat.lt_or_ge (q + 1) (2 ^ 53) with inside | outside
  · have down := ofNat_down (k := k) (Nat.le_succ_of_le low) inside (Nat.two_pow_pos k) (by omega)
      (not_roundsUp_zero (Nat.two_pow_pos k) _)
    rwa [Nat.add_zero] at down
  · have full : q + 1 = 2 ^ 53 := by omega
    have down := ofNat_down (q := 2 ^ 52) (k := k + 1) (Nat.le_refl _) (by decide)
      (Nat.two_pow_pos _) (by omega) (not_roundsUp_zero (Nat.two_pow_pos _) _)
    have product : 2 ^ (k + 1) * 2 ^ 52 + 0 = 2 ^ k * 2 ^ 53 := by
      rw [Nat.add_zero, Nat.pow_succ, Nat.mul_assoc]
      rfl
    rw [product] at down
    rw [full, down]
    rfl

/-- The parts of a number of more than 53 bits. -/
theorem exists_block {n : Nat} (large : 2 ^ 53 ≤ n) (inRange : n < 2 ^ 64) :
    ∃ q r k, n = 2 ^ k * q + r ∧ 2 ^ 52 ≤ q ∧ q < 2 ^ 53 ∧ r < 2 ^ k ∧ 1 ≤ k ∧ k ≤ 11 := by
  have some : n ≠ 0 := by omega
  have top : 53 ≤ n.log2 := (Nat.le_log2 some).mpr large
  have bound : n.log2 < 64 := (Nat.log2_lt some).mpr inRange
  have atLeast := Nat.log2_self_le some
  have below : n < 2 ^ (n.log2 + 1) := Nat.lt_log2_self
  refine ⟨n / 2 ^ (n.log2 - 52), n % 2 ^ (n.log2 - 52), n.log2 - 52,
    (Nat.div_add_mod _ _).symm, ?_, ?_, Nat.mod_lt _ (Nat.two_pow_pos _), by omega, by omega⟩
  · rw [Nat.le_div_iff_mul_le (Nat.two_pow_pos _), ← Nat.pow_add]
    rwa [show 52 + (n.log2 - 52) = n.log2 by omega]
  · rw [Nat.div_lt_iff_lt_mul (Nat.two_pow_pos _), ← Nat.pow_add]
    rwa [show 53 + (n.log2 - 52) = n.log2 + 1 by omega]

/-- The last numbers of 64 bits are all rounded to `2 ^ 64`. -/
theorem ofNat_top {n : Nat} (last : 2 ^ 64 - 1024 ≤ n) (inRange : n < 2 ^ 64) :
    ofNat n = some ⟨2 ^ 52, 12⟩ := by
  have split : n = 2 ^ 11 * (2 ^ 53 - 1) + (n - (2 ^ 64 - 2048)) := by omega
  rw [split, ofNat_up (by decide) (by decide) (by omega) (by decide)]
  · rfl
  · unfold RoundsUp
    omega

theorem exists_twin_of_top {n : Nat} (last : 2 ^ 64 - 1024 ≤ n) (inRange : n < 2 ^ 64) :
    ∃ m < 2 ^ 64 - 1, m ≠ n ∧ ofNat m = ofNat n := by
  rw [ofNat_top last inRange]
  by_cases first : n = 2 ^ 64 - 1024
  · exact ⟨2 ^ 64 - 1023, by decide, by omega, ofNat_top (by decide) (by decide)⟩
  · exact ⟨2 ^ 64 - 1024, by decide, by omega, ofNat_top (by decide) (by decide)⟩

/-- A number of more than 53 bits is taken for another one below `2 ^ 64 - 1`, unless it is even,
its half is odd, and it has 54 bits. -/
theorem exists_twin {n : Nat} (large : 2 ^ 53 ≤ n) (inRange : n < 2 ^ 64)
    (common : ¬ (n < 2 ^ 54 ∧ n % 4 = 2)) :
    ∃ m < 2 ^ 64 - 1, m ≠ n ∧ ofNat m = ofNat n := by
  by_cases last : 2 ^ 64 - 1024 ≤ n
  · exact exists_twin_of_top last inRange
  obtain ⟨q, r, k, rfl, low, high, remainder, least, most⟩ := exists_block large inRange
  obtain ⟨j, rfl⟩ : ∃ j, k = j + 1 := ⟨k - 1, by omega⟩
  have even : 2 ^ (j + 1) = 2 * 2 ^ j := by rw [Nat.pow_succ, Nat.mul_comm]
  have width : 2 ^ (j + 1) ≤ 2 ^ 11 := Nat.pow_le_pow_right (by decide) most
  have zero := not_roundsUp_zero (Nat.two_pow_pos (j + 1)) q
  have next : 2 ^ (j + 1) * (q + 1) = 2 ^ (j + 1) * q + 2 ^ (j + 1) := Nat.mul_succ _ _
  by_cases up : RoundsUp (2 ^ (j + 1)) q r
  · refine ⟨2 ^ (j + 1) * (q + 1), ?_, by omega, by
      rw [ofNat_next low high (by omega), ofNat_up low high remainder (by omega) up]⟩
    have half : 2 ^ (j + 1) ≤ 2 * r := by
      rcases up with more | ⟨tie, -⟩ <;> omega
    have evens : 2 ^ (j + 1) * q = 2 * (2 ^ j * q) := by rw [even, Nat.mul_assoc]
    omega
  · have kept := ofNat_down low high remainder (by omega) up
    by_cases some : r = 0
    · subst some
      have down : ¬ RoundsUp (2 ^ (j + 1)) q 1 := by
        rintro (more | ⟨tie, odd⟩)
        · have := Nat.two_pow_pos j
          omega
        · refine common ⟨?_, ?_⟩ <;> rw [tie] <;> omega
      have evens : 2 ^ (j + 1) * q = 2 * (2 ^ j * q) := by rw [even, Nat.mul_assoc]
      have two : 1 < 2 ^ (j + 1) := by
        have := Nat.two_pow_pos j
        omega
      exact ⟨2 ^ (j + 1) * q + 1, by omega, by omega,
        by rw [ofNat_down low high two (by omega) down, kept]⟩
    · exact ⟨2 ^ (j + 1) * q + 0, by omega, by omega,
        by rw [ofNat_down low high (Nat.two_pow_pos _) (by omega) zero, kept]⟩

/-- An even number of 54 bits whose half is odd is taken for no other one. -/
theorem eq_of_ofNat_eq {n m : Nat} (large : 2 ^ 53 ≤ n) (bits : n < 2 ^ 54) (half : n % 4 = 2)
    (inRange : m < 2 ^ 64) (same : ofNat m = ofNat n) : m = n := by
  have kept : ofNat n = some ⟨n / 2, 1⟩ := by
    have split : 2 ^ 1 * (n / 2) + 0 = n := by omega
    have down := ofNat_down (q := n / 2) (r := 0) (k := 1) (by omega) (by omega) (by decide)
      (by decide) (not_roundsUp_zero (by decide) _)
    rw [split, carried, if_neg (by omega)] at down
    exact down
  rw [kept] at same
  rcases Nat.lt_or_ge m (2 ^ 53) with small | largeM
  · rcases Nat.eq_zero_or_pos m with rfl | positive
    · have exponent : minExponent = 1 := congrArg Magnitude.exponent (Option.some.inj same)
      cases exponent
    · rw [ofNat_of_lt positive small, Option.some.injEq, Magnitude.mk.injEq] at same
      have top := log2_le_of_lt positive small
      omega
  obtain ⟨q, r, k, rfl, low, high, remainder, least, most⟩ := exists_block largeM inRange
  rw [ofNat_block low high remainder (by omega), Option.some.injEq] at same
  obtain ⟨mantissa, exponent⟩ := eq_of_carried_eq (by omega) same
  obtain rfl : k = 1 := by omega
  split at mantissa
  all_goals
    rename_i rounds
    unfold RoundsUp at rounds
    omega

end Magnitude

namespace Binary64

theorem same_natCast_iff (a b : Nat) :
    (ofInt a).same (ofInt b) = true ↔ Magnitude.ofNat a = Magnitude.ofNat b := by
  rw [ofInt_natCast, ofInt_natCast]
  cases Magnitude.ofNat a <;> cases Magnitude.ofNat b <;> simp [Binary64.same]

/-- A natural number of 64 bits is taken for no other one below `2 ^ 64 - 1` exactly if it has at most
53 bits, or 54 of them with a last one that is zero behind one that is not. -/
theorem alone_iff {n : Nat} (inRange : n < 2 ^ 64) :
    (∀ m : Nat, m < 2 ^ 64 - 1 → (ofInt n).same (ofInt m) = true → n = m) ↔
      n < 2 ^ 53 ∨ n < 2 ^ 54 ∧ n % 4 = 2 := by
  constructor
  · intro alone
    rcases Nat.lt_or_ge n (2 ^ 53) with small | large
    · exact .inl small
    · refine .inr (Classical.byContradiction fun common => ?_)
      obtain ⟨m, below, other, same⟩ := Magnitude.exists_twin large inRange common
      exact other (alone m below ((same_natCast_iff n m).mpr same.symm)).symm
  · rintro (small | ⟨bits, half⟩) m below same
    · exact (same_ofInt_iff small m).mp same
    · rcases Nat.lt_or_ge n (2 ^ 53) with small | large
      · exact (same_ofInt_iff small m).mp same
      · exact (Magnitude.eq_of_ofNat_eq large bits half (by omega)
          ((same_natCast_iff n m).mp same).symm).symm

end Binary64

end LeaderLease
