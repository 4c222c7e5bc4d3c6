import Idl.Double.Reader
import Idl.Double.Shortest
import Mathlib.Tactic.Ring

/-!
What rounds to a magnitude. Every number in the neighbourhood of a finite magnitude rounds to it.
Main statement: `Near.nearestMagnitude`.
-/

set_option autoImplicit false

namespace Idl.Double

theorem roundHalfEven_eq {a b r : Nat} (lower : 2 * (r * b) ≤ 2 * a + b)
    (upper : 2 * a ≤ 2 * (r * b) + b) (positive : 0 < b)
    (tie : 2 * (r * b) = 2 * a + b ∨ 2 * a = 2 * (r * b) + b → r % 2 = 0) :
    roundHalfEven a b = r := by
  have split : b * (a / b) + a % b = a := Nat.div_add_mod a b
  have small : a % b < b := Nat.mod_lt a positive
  rw [Nat.mul_comm b] at split
  -- the quotient is `r` or one less, by how `r * b` lies to its multiples
  have above (more : a / b < r) : a / b * b + b ≤ r * b := by
    have step := Nat.mul_le_mul_right b more
    rwa [Nat.succ_mul] at step
  have below (less : r < a / b) : r * b + b ≤ a / b * b := by
    have step := Nat.mul_le_mul_right b less
    rwa [Nat.succ_mul] at step
  have farther (more : a / b + 1 < r) : a / b * b + b + b ≤ r * b := by
    have step := Nat.mul_le_mul_right b more
    rwa [Nat.succ_mul, Nat.succ_mul] at step
  have next (same : r = a / b + 1) : r * b = a / b * b + b := by rw [same, Nat.succ_mul]
  have own (same : r = a / b) : r * b = a / b * b := by rw [same]
  simp only [roundHalfEven]
  split
  · omega
  · split
    · omega
    · rcases Nat.lt_trichotomy r (a / b) with less | same | more
      · omega
      · have even := tie (.inr (by omega))
        omega
      · have even := tie (.inl (by omega))
        omega

/-! The significand and exponent of a magnitude. -/

theorem scaled_eq (m : Nat) : (scaled m).2 * unitBit + (scaled m).1 = m := by
  have split := Nat.div_add_mod m unitBit
  rw [scaled]
  split
  · next subnormal =>
    rw [subnormal] at split
    omega
  · next normal =>
    obtain ⟨e, exponent⟩ := Nat.exists_eq_succ_of_ne_zero normal
    rw [exponent, Nat.mul_comm, Nat.succ_mul] at split
    rw [exponent]
    simp only [Nat.succ_sub_one]
    omega

theorem scaled_lt (m : Nat) : (scaled m).1 < 2 * unitBit := by
  have small : m % unitBit < unitBit := Nat.mod_lt m (by decide)
  rw [scaled]
  split <;> omega

theorem unitBit_le_scaled {m : Nat} (normal : 0 < (scaled m).2) : unitBit ≤ (scaled m).1 := by
  rw [scaled] at normal ⊢
  split
  · next subnormal =>
    rw [if_pos subnormal] at normal
    exact absurd normal (Nat.lt_irrefl 0)
  · exact Nat.le_add_right _ _

theorem scaled_pos {m : Nat} (positive : 0 < m) : 0 < (scaled m).1 := by
  have eq := scaled_eq m
  have unit : 0 < unitBit := by decide
  rcases Nat.eq_zero_or_pos (scaled m).2 with zero | normal
  · rw [zero] at eq
    omega
  · have least := unitBit_le_scaled normal
    omega

/-! Numbers near a magnitude. -/

/-- The number `num / den` lies in the neighbourhood of a magnitude. A quarter of a unit of the
magnitude is `2 ^ k / 2 ^ 1076`, so the number is `num * 2 ^ 1076 / (den * 2 ^ k)` quarters. -/
structure Near (m num den : Nat) : Prop where
  positive : 0 < den
  low : (neighbourhood m).low * (den * 2 ^ (scaled m).2) ≤ 4 * (num * 2 ^ 1074)
  high : 4 * (num * 2 ^ 1074) ≤ (neighbourhood m).high * (den * 2 ^ (scaled m).2)
  /-- Either end belongs to it only if the significand is even. -/
  tie : (neighbourhood m).low * (den * 2 ^ (scaled m).2) = 4 * (num * 2 ^ 1074) ∨
    4 * (num * 2 ^ 1074) = (neighbourhood m).high * (den * 2 ^ (scaled m).2) →
    (scaled m).1 % 2 = 0

theorem shiftLeft_pow (n k : Nat) : n <<< k = n * 2 ^ k := Nat.shiftLeft_eq n k

/-- The exponent that rounding starts from, by the power of two below the number. -/
theorem log2_div_eq {num den k : Nat} (positive : 0 < den) (lower : den * 2 ^ k ≤ num)
    (upper : num < den * 2 ^ (k + 1)) : (num / den).log2 = k := by
  have below : 2 ^ k ≤ num / den := (Nat.le_div_iff_mul_le positive).mpr (by rwa [Nat.mul_comm])
  have above : num / den < 2 ^ (k + 1) :=
    (Nat.div_lt_iff_lt_mul positive).mpr (by rwa [Nat.mul_comm])
  have nonzero : num / den ≠ 0 := by
    have power : 0 < 2 ^ k := Nat.two_pow_pos k
    omega
  exact (Nat.log2_eq_iff nonzero).mpr ⟨below, above⟩

theorem log2_div_le {num den k : Nat} (positive : 0 < den) (upper : num < den * 2 ^ (k + 1)) :
    (num / den).log2 ≤ k := by
  rcases Nat.eq_zero_or_pos (num / den) with zero | nonzero
  · rw [zero]
    exact Nat.zero_le _
  · have above : num / den < 2 ^ (k + 1) :=
      (Nat.div_lt_iff_lt_mul positive).mpr (by rwa [Nat.mul_comm])
    have less := (Nat.log2_lt (Nat.ne_of_gt nonzero)).mpr above
    omega

variable {m num den : Nat}

/-- Within half a unit of a significand, rounding gives it. -/
theorem round_of_halves {s b A : Nat} (positive : 0 < b) (low : (4 * s - 2) * b ≤ 4 * A)
    (high : 4 * A ≤ (4 * s + 2) * b)
    (tie : (4 * s - 2) * b = 4 * A ∨ 4 * A = (4 * s + 2) * b → s % 2 = 0) :
    roundHalfEven A b = s := by
  rcases Nat.eq_zero_or_pos s with zero | nonzero
  · subst zero
    refine roundHalfEven_eq ?_ ?_ positive ?_ <;> omega
  · obtain ⟨r, rfl⟩ : ∃ r, s = r + 1 := ⟨s - 1, by omega⟩
    have lowEnd : (4 * (r + 1) - 2) * b = 4 * ((r + 1) * b) - 2 * b := by
      rw [Nat.sub_mul]
      congr 1
      ring
    have highEnd : (4 * (r + 1) + 2) * b = 4 * ((r + 1) * b) + 2 * b := by ring
    have least : b ≤ (r + 1) * b := Nat.le_mul_of_pos_left b (by omega)
    rw [lowEnd, highEnd] at tie
    rw [lowEnd] at low
    rw [highEnd] at high
    refine roundHalfEven_eq (by omega) (by omega) positive fun ends => tie ?_
    omega

/-- What lies in the neighbourhood of a finite magnitude rounds to it. -/
theorem Near.nearestMagnitude (near : Near m num den) (finite : m < infinityBits) :
    Double.nearestMagnitude num den = m := by
  obtain ⟨positive, low, high, tie⟩ := near
  have eq := scaled_eq m
  have small := scaled_lt m
  have normal : 0 < (scaled m).2 → unitBit ≤ (scaled m).1 := unitBit_le_scaled
  simp only [neighbourhood] at low high tie
  rw [Double.nearestMagnitude]
  simp only [shiftLeft_pow]
  generalize (scaled m).1 = s at *
  generalize (scaled m).2 = k at *
  generalize num * 2 ^ 1074 = A at *
  have unit : unitBit = 2 ^ 52 := by decide
  have power : 0 < den * 2 ^ k := Nat.mul_pos positive (Nat.two_pow_pos k)
  -- the number is below the next power of two, for even the upper end is
  have below : A < den * 2 ^ (52 + k + 1) := by
    have wide : den * 2 ^ (52 + k + 1) = 2 * unitBit * (den * 2 ^ k) := by
      rw [unit]
      ring
    have step : (4 * s + 2) * (den * 2 ^ k) + 2 * (den * 2 ^ k) ≤
        4 * (2 * unitBit * (den * 2 ^ k)) := by
      calc (4 * s + 2) * (den * 2 ^ k) + 2 * (den * 2 ^ k) = (4 * s + 4) * (den * 2 ^ k) := by ring
        _ ≤ (4 * (2 * unitBit)) * (den * 2 ^ k) := Nat.mul_le_mul_right _ (by omega)
        _ = 4 * (2 * unitBit * (den * 2 ^ k)) := by ring
    omega
  have rounded (same : (A / den).log2 - 52 = k)
      (halves : (4 * s - 2) * (den * 2 ^ k) ≤ 4 * A)
      (ends : (4 * s - 2) * (den * 2 ^ k) = 4 * A → s % 2 = 0) :
      min (((A / den).log2 - 52) * unitBit +
        roundHalfEven A (den * 2 ^ ((A / den).log2 - 52))) infinityBits = m := by
    rw [same, round_of_halves power halves high fun e => e.elim ends fun e => tie (.inr e), eq]
    exact Nat.min_eq_left (Nat.le_of_lt finite)
  by_cases boundary : s = unitBit ∧ 0 < k
  · -- a power of two: what lies below it has units half as large
    rw [if_pos (by simpa using boundary)] at low tie
    obtain ⟨rfl, positiveExponent⟩ := boundary
    by_cases less : A < den * 2 ^ (52 + k)
    · obtain ⟨j, rfl⟩ : ∃ j, k = j + 1 := ⟨k - 1, by omega⟩
      have half : den * 2 ^ (j + 1) = 2 * (den * 2 ^ j) := by ring
      have lowEnd : (4 * unitBit - 1) * (den * 2 ^ (j + 1)) =
          4 * (2 * unitBit * (den * 2 ^ j)) - 2 * (den * 2 ^ j) := by
        rw [half, Nat.sub_mul]
        congr 1 <;> ring
      have wide : den * 2 ^ (52 + (j + 1)) = 2 * unitBit * (den * 2 ^ j) := by
        rw [unit]
        ring
      have least : den * 2 ^ j ≤ unitBit * (den * 2 ^ j) :=
        Nat.le_mul_of_pos_left _ (by decide)
      have first : den * 2 ^ (52 + j) = unitBit * (den * 2 ^ j) := by
        rw [unit]
        ring
      have double : 2 * unitBit * (den * 2 ^ j) = 2 * (unitBit * (den * 2 ^ j)) := by ring
      have positivePower : 0 < den * 2 ^ j := Nat.mul_pos positive (Nat.two_pow_pos j)
      have log : (A / den).log2 = 52 + j :=
        log2_div_eq positive (by omega) (by rw [Nat.add_assoc]; exact less)
      have round : roundHalfEven A (den * 2 ^ j) = 2 * unitBit :=
        roundHalfEven_eq (by omega) (by omega) positivePower fun _ => by decide
      rw [log, Nat.add_sub_cancel_left, round]
      have sum : j * unitBit + 2 * unitBit = m := by
        rw [← eq]
        ring
      rw [sum]
      exact Nat.min_eq_left (Nat.le_of_lt finite)
    · have log := log2_div_eq positive (Nat.le_of_not_lt less) below
      refine rounded (by omega) ?_ fun _ => by decide
      exact Nat.le_trans (Nat.mul_le_mul_right _ (by omega)) low
  · rw [if_neg (by simpa using boundary)] at low tie
    refine rounded ?_ low fun e => tie (.inl e)
    rcases Nat.eq_zero_or_pos k with rfl | positiveExponent
    · have log := log2_div_le positive below
      omega
    · have more : unitBit < s := Nat.lt_of_le_of_ne (normal positiveExponent)
        fun same => boundary ⟨same.symm, positiveExponent⟩
      have above : den * 2 ^ (52 + k) ≤ A := by
        have wide : den * 2 ^ (52 + k) = unitBit * (den * 2 ^ k) := by
          rw [unit]
          ring
        have step : 4 * (unitBit * (den * 2 ^ k)) ≤ (4 * s - 2) * (den * 2 ^ k) := by
          calc 4 * (unitBit * (den * 2 ^ k)) = (4 * unitBit) * (den * 2 ^ k) := by ring
            _ ≤ (4 * s - 2) * (den * 2 ^ k) := Nat.mul_le_mul_right _ (by omega)
        omega
      have log := log2_div_eq positive above below
      omega

end Idl.Double
