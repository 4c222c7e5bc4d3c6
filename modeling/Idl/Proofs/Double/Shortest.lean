import Idl.Proofs.Double.Nearest
import Mathlib.Tactic.Linarith

/-!
The shortest decimal of a magnitude is one of the numbers that round to the magnitude: among
decimals of seventeen digits there always is one. Main statement: `near_shortest`.
-/

set_option autoImplicit false

namespace Idl.Double

/-! Decimals of equal value. -/

theorem Near.congr {m num den num' den' : Nat} (near : Near m num den) (positive : 0 < den')
    (same : num * den' = num' * den) : Near m num' den' := by
  have scale (a : Nat) : a * (den * 2 ^ (scaled m).2) * den' =
      a * (den' * 2 ^ (scaled m).2) * den := by ring
  have cross : 4 * (num * 2 ^ 1074) * den' = 4 * (num' * 2 ^ 1074) * den := by
    generalize 2 ^ 1074 = unit
    calc 4 * (num * unit) * den' = 4 * unit * (num * den') := by ring
      _ = 4 * unit * (num' * den) := by rw [same]
      _ = 4 * (num' * unit) * den := by ring
  refine ⟨positive, ?_, ?_, ?_⟩
  · apply Nat.le_of_mul_le_mul_right _ near.positive
    rw [← scale, ← cross]
    exact Nat.mul_le_mul_right den' near.low
  · apply Nat.le_of_mul_le_mul_right _ near.positive
    rw [← scale, ← cross]
    exact Nat.mul_le_mul_right den' near.high
  · intro ends
    apply near.tie
    rcases ends with low | high
    · left
      apply Nat.eq_of_mul_eq_mul_right positive
      rw [scale, cross, low]
    · right
      apply Nat.eq_of_mul_eq_mul_right positive
      rw [scale, cross, high]

namespace Decimal

/-- A decimal as a fraction. -/
def num (d : Decimal) : Nat := d.digits * 10 ^ d.exponent.toNat

def den (d : Decimal) : Nat := 10 ^ (-d.exponent).toNat

theorem den_pos (d : Decimal) : 0 < d.den := Nat.pow_pos (by decide)

/-- The decimal is near the magnitude. -/
abbrev Near (m : Nat) (d : Decimal) : Prop := Double.Near m d.num d.den

/-- A zero at the end stands for one more power of ten. -/
theorem shift_eq (digits : Nat) (exponent : Int) :
    (⟨10 * digits, exponent⟩ : Decimal).num * (⟨digits, exponent + 1⟩ : Decimal).den =
      (⟨digits, exponent + 1⟩ : Decimal).num * (⟨10 * digits, exponent⟩ : Decimal).den := by
  simp only [num, den]
  rcases lt_or_ge exponent 0 with negative | positive
  · obtain ⟨n, rfl⟩ : ∃ n : Nat, exponent = -(n + 1 : Int) := ⟨(-exponent - 1).toNat, by omega⟩
    have first : (-(n + 1 : Int)).toNat = 0 := by omega
    have second : (-(n + 1 : Int) + 1).toNat = 0 := by omega
    have third : (- -(n + 1 : Int)).toNat = n + 1 := by omega
    have fourth : (-(-(n + 1 : Int) + 1)).toNat = n := by omega
    rw [first, second, third, fourth]
    ring
  · obtain ⟨n, rfl⟩ := Int.eq_ofNat_of_zero_le positive
    have first : ((n : Int)).toNat = n := by omega
    have second : ((n : Int) + 1).toNat = n + 1 := by omega
    have third : (-(n : Int)).toNat = 0 := by omega
    have fourth : (-((n : Int) + 1)).toNat = 0 := by omega
    rw [first, second, third, fourth]
    ring

theorem Near.trimmed {m : Nat} {d : Decimal} (near : d.Near m) (fuel : Nat) :
    (d.trimmed fuel).Near m := by
  induction fuel generalizing d with
  | zero => exact near
  | succ fuel ih =>
    rw [Decimal.trimmed]
    split
    · next ends =>
      rw [Bool.and_eq_true, decide_eq_true_eq, decide_eq_true_eq] at ends
      apply ih
      have whole : d.digits = 10 * (d.digits / 10) := by omega
      have eq := shift_eq (d.digits / 10) d.exponent
      rw [← whole] at eq
      exact Double.Near.congr near (den_pos _) eq
    · exact near

end Decimal

/-! The grids of decimals. -/

/-- A step of the grid over a quarter of a unit, as a fraction. -/
def stepNum (k : Nat) (step : Int) : Nat := Nat.pow 10 step.toNat <<< (1076 - k)

def stepDen (k : Nat) (step : Int) : Nat := Nat.pow 10 (-step).toNat <<< (k - 1076)

theorem stepNum_eq (k : Nat) (step : Int) : stepNum k step = 10 ^ step.toNat * 2 ^ (1076 - k) :=
  Nat.shiftLeft_eq _ _

theorem stepDen_eq (k : Nat) (step : Int) : stepDen k step = 10 ^ (-step).toNat * 2 ^ (k - 1076) :=
  Nat.shiftLeft_eq _ _

theorem stepNum_pos (k : Nat) (step : Int) : 0 < stepNum k step := by
  rw [stepNum_eq]
  positivity

theorem stepDen_pos (k : Nat) (step : Int) : 0 < stepDen k step := by
  rw [stepDen_eq]
  positivity

/-- Quarters of a unit, over the exponent of a whole one. -/
theorem quarters {e f : Nat} (quarter : f = e + 2) (k : Nat) :
    2 ^ (f - k) * 2 ^ k = 4 * 2 ^ e * 2 ^ (k - f) ∧
      2 ^ (f - k) * 2 ^ (k - e) = 4 * 2 ^ (e - k) * 2 ^ (k - f) := by
  have four : (4 : Nat) = 2 ^ 2 := by decide
  rw [four]
  constructor
  · rw [← Nat.pow_add, ← Nat.pow_add, ← Nat.pow_add]
    congr 1
    omega
  · rw [← Nat.pow_add, ← Nat.pow_add, ← Nat.pow_add]
    congr 1
    omega

/-- A grid point and `a` quarters of a unit, as whole numbers. -/
theorem order_of_step (k x a : Nat) (step : Int) :
    (a * stepDen k step ≤ x * stepNum k step ↔
      a * (10 ^ (-step).toNat * 2 ^ k) ≤ 4 * (x * 10 ^ step.toNat * 2 ^ 1074)) ∧
    (x * stepNum k step ≤ a * stepDen k step ↔
      4 * (x * 10 ^ step.toNat * 2 ^ 1074) ≤ a * (10 ^ (-step).toNat * 2 ^ k)) := by
  have powers := (quarters (show 1076 = 1074 + 2 from rfl) k).1
  rw [stepNum_eq, stepDen_eq]
  generalize 1076 - k = i at *
  generalize k - 1076 = j at *
  generalize 2 ^ 1074 = unit at *
  have positive : 0 < 2 ^ k := Nat.two_pow_pos k
  have other : 0 < 2 ^ j := Nat.two_pow_pos j
  have left : a * (10 ^ (-step).toNat * 2 ^ j) * 2 ^ k =
      a * (10 ^ (-step).toNat * 2 ^ k) * 2 ^ j := by ring
  have right : x * (10 ^ step.toNat * 2 ^ i) * 2 ^ k =
      4 * (x * 10 ^ step.toNat * unit) * 2 ^ j := by
    calc x * (10 ^ step.toNat * 2 ^ i) * 2 ^ k = x * 10 ^ step.toNat * (2 ^ i * 2 ^ k) := by ring
      _ = x * 10 ^ step.toNat * (4 * unit * 2 ^ j) := by rw [powers]
      _ = 4 * (x * 10 ^ step.toNat * unit) * 2 ^ j := by ring
  constructor
  · rw [← Nat.mul_le_mul_right_iff positive, left, right, Nat.mul_le_mul_right_iff other]
  · rw [← Nat.mul_le_mul_right_iff positive, left, right, Nat.mul_le_mul_right_iff other]

/-- A grid point in the neighbourhood is near the magnitude. -/
theorem near_of_holds {m x : Nat} {step : Int}
    (holds : (neighbourhood m).holds (stepNum (scaled m).2 step) (stepDen (scaled m).2 step) x) :
    (⟨x, step⟩ : Decimal).Near m := by
  have lowOrder := order_of_step (scaled m).2 x (neighbourhood m).low step
  have highOrder := order_of_step (scaled m).2 x (neighbourhood m).high step
  rw [Neighbourhood.holds] at holds
  split at holds
  · next closed =>
    rw [Bool.and_eq_true, decide_eq_true_eq, decide_eq_true_eq] at holds
    refine ⟨Decimal.den_pos _, lowOrder.1.mp holds.1, highOrder.2.mp holds.2, fun _ => ?_⟩
    have even : ((scaled m).1 % 2 == 0) = true := closed
    rwa [beq_iff_eq] at even
  · rw [Bool.and_eq_true, decide_eq_true_eq, decide_eq_true_eq] at holds
    refine ⟨Decimal.den_pos _, lowOrder.1.mp (Nat.le_of_lt holds.1),
      highOrder.2.mp (Nat.le_of_lt holds.2), fun ends => ?_⟩
    rcases ends with low | high
    · exact absurd (lowOrder.2.mpr (Nat.le_of_eq low.symm)) (Nat.not_le.mpr holds.1)
    · exact absurd (highOrder.1.mpr (Nat.le_of_eq high.symm)) (Nat.not_le.mpr holds.2)

theorem holds_of_onGrid? {n : Neighbourhood} {num den x : Nat}
    (found : n.onGrid? num den = some x) : n.holds num den x = true := by
  rw [Neighbourhood.onGrid?] at found
  split at found
  · next below above =>
    split at found
    · cases found
      exact below
    · cases found
      exact above
  · next below _ =>
    cases found
    exact below
  · next _ above =>
    cases found
    exact above
  · cases found

/-- A grid whose steps are shorter than the neighbourhood has a point in it. -/
theorem onGrid?_isSome {n : Neighbourhood} {num den : Nat} (positive : 0 < num) (wide : 0 < den)
    (low : n.low < n.value) (high : n.value < n.high) (short : num < (n.high - n.low) * den) :
    (n.onGrid? num den).isSome = true := by
  by_contra none
  have split : num * (n.value * den / num) + n.value * den % num = n.value * den :=
    Nat.div_add_mod _ _
  have small : n.value * den % num < num := Nat.mod_lt _ positive
  have step : (n.value * den / num + 1) * num = num * (n.value * den / num) + num := by ring
  have comm : n.value * den / num * num = num * (n.value * den / num) := Nat.mul_comm _ _
  have below : n.low * den < n.value * den := Nat.mul_lt_mul_of_pos_right low wide
  have above : n.value * den < n.high * den := Nat.mul_lt_mul_of_pos_right high wide
  have width : (n.high - n.low) * den = n.high * den - n.low * den := Nat.sub_mul _ _ _
  rw [Neighbourhood.onGrid?] at none
  split at none
  · split at none <;> exact none rfl
  · exact none rfl
  · exact none rfl
  · next lower upper =>
    simp only [Neighbourhood.holds] at lower upper
    split at lower <;> split at upper <;>
      simp only [Bool.and_eq_false_iff, decide_eq_false_iff_not] at lower upper <;> omega

/-! Powers of ten. -/

theorem le_leastShift {num den bits : Nat} (positive : 0 < num) (small : den ≤ 2 ^ bits)
    (start fuel : Nat) (enough : bits ≤ 3 * (start + fuel)) :
    den ≤ num * 10 ^ leastShift num den start fuel := by
  induction fuel generalizing start with
  | zero =>
    calc den ≤ 2 ^ bits := small
      _ ≤ 2 ^ (3 * start) := Nat.pow_le_pow_right (by decide) enough
      _ = 8 ^ start := Nat.pow_mul 2 3 start
      _ ≤ 10 ^ start := Nat.pow_le_pow_left (by decide) start
      _ ≤ num * 10 ^ start := Nat.le_mul_of_pos_left _ positive
  | succ fuel ih =>
    rw [leastShift]
    split
    · next found => exact found
    · exact ih (start + 1) (by omega)

/-- The power of ten is not above the number. -/
theorem leadingPower_le {num den bits : Nat} (positive : 0 < den) (nonzero : 0 < num)
    (small : den ≤ 2 ^ bits) (enough : bits ≤ 1203) :
    10 ^ (leadingPower num den).toNat * den ≤ num * 10 ^ (-leadingPower num den).toNat := by
  rw [leadingPower]
  split
  · next whole =>
    have quotient : 0 < num / den := Nat.div_pos whole positive
    have digits : 0 < (Nat.toDigits 10 (num / den)).length := Nat.length_toDigits_pos
    have first : (((Nat.toDigits 10 (num / den)).length : Int) - 1).toNat =
        (Nat.toDigits 10 (num / den)).length - 1 := by omega
    have second : (-(((Nat.toDigits 10 (num / den)).length : Int) - 1)).toNat = 0 := by omega
    rw [first, second, Nat.pow_zero, Nat.mul_one]
    apply (Nat.le_div_iff_mul_le positive).mp
    rcases Nat.eq_zero_or_pos ((Nat.toDigits 10 (num / den)).length - 1) with zero | more
    · rw [zero]
      exact quotient
    · apply Nat.le_of_not_lt
      intro less
      have shorter := (Nat.length_toDigits_le_iff (by decide) more).mpr less
      omega
  · have first : (-(leastShift num den 1 400 : Int)).toNat = 0 := by omega
    have second : (- -(leastShift num den 1 400 : Int)).toNat = leastShift num den 1 400 := by omega
    rw [first, second, Nat.pow_zero, Nat.one_mul]
    exact le_leastShift nonzero small 1 400 enough

/-- The power of ten of the first digit of a magnitude. -/
def power (m : Nat) : Int :=
  leadingPower ((scaled m).1 <<< ((scaled m).2 - 1074)) (1 <<< (1074 - (scaled m).2))

theorem power_le {m : Nat} (positive : 0 < m) :
    10 ^ (power m).toNat * 2 ^ (1074 - (scaled m).2) ≤
      (scaled m).1 * 2 ^ ((scaled m).2 - 1074) * 10 ^ (-power m).toNat := by
  have significand := scaled_pos positive
  rw [power]
  simp only [shiftLeft_pow, Nat.one_mul]
  exact leadingPower_le (by positivity) (by positivity) (Nat.le_refl _) (by omega)

/-- With seventeen digits, a step of the grid is shorter than a unit. -/
theorem step_le {m : Nat} (positive : 0 < m) :
    stepNum (scaled m).2 (power m - 16) * 10 ^ 16 ≤
      4 * (scaled m).1 * stepDen (scaled m).2 (power m - 16) := by
  have least := power_le positive
  generalize (scaled m).1 = s at *
  generalize (scaled m).2 = k at *
  generalize power m = p at *
  rw [stepNum_eq, stepDen_eq]
  have tens : 10 ^ (p - 16).toNat * 10 ^ 16 * 10 ^ (-p).toNat =
      10 ^ p.toNat * 10 ^ (-(p - 16)).toNat := by
    rw [← Nat.pow_add, ← Nat.pow_add, ← Nat.pow_add]
    congr 1
    omega
  have twos := (quarters (show 1076 = 1074 + 2 from rfl) k).2
  have scale : 0 < 10 ^ (-p).toNat * 2 ^ (k - 1074) := by positivity
  apply Nat.le_of_mul_le_mul_right _ scale
  calc 10 ^ (p - 16).toNat * 2 ^ (1076 - k) * 10 ^ 16 * (10 ^ (-p).toNat * 2 ^ (k - 1074))
      = (10 ^ (p - 16).toNat * 10 ^ 16 * 10 ^ (-p).toNat) * (2 ^ (1076 - k) * 2 ^ (k - 1074)) := by
        ring
    _ = 4 * 10 ^ (-(p - 16)).toNat * 2 ^ (k - 1076) * (10 ^ p.toNat * 2 ^ (1074 - k)) := by
        rw [tens, twos]
        ring
    _ ≤ 4 * 10 ^ (-(p - 16)).toNat * 2 ^ (k - 1076) *
        (s * 2 ^ (k - 1074) * 10 ^ (-p).toNat) := Nat.mul_le_mul_left _ least
    _ = 4 * s * (10 ^ (-(p - 16)).toNat * 2 ^ (k - 1076)) * (10 ^ (-p).toNat * 2 ^ (k - 1074)) := by
        ring

/-! The search. -/

theorem onGrid?_seventeen {m : Nat} (positive : 0 < m) :
    ((neighbourhood m).onGrid? (stepNum (scaled m).2 (power m - 16))
      (stepDen (scaled m).2 (power m - 16))).isSome = true := by
  have step := step_le positive
  have significand := scaled_pos positive
  have small := scaled_lt m
  have wide := stepDen_pos (scaled m).2 (power m - 16)
  have narrow := stepNum_pos (scaled m).2 (power m - 16)
  generalize stepNum (scaled m).2 (power m - 16) = num at *
  have unit : unitBit = 4503599627370496 := by decide
  have bounds : (neighbourhood m).value = 4 * (scaled m).1 ∧
      (neighbourhood m).high = 4 * (scaled m).1 + 2 ∧
      ((neighbourhood m).low = 4 * (scaled m).1 - 2 ∨
        (scaled m).1 = unitBit ∧ (neighbourhood m).low = 4 * (scaled m).1 - 1) := by
    refine ⟨rfl, rfl, ?_⟩
    simp only [neighbourhood]
    split
    · next boundary =>
      right
      rw [Bool.and_eq_true, decide_eq_true_eq] at boundary
      exact ⟨boundary.1, rfl⟩
    · left
      rfl
  obtain ⟨value, high, low⟩ := bounds
  generalize stepDen (scaled m).2 (power m - 16) = den at *
  generalize (scaled m).1 = s at *
  apply onGrid?_isSome
  · exact narrow
  · exact wide
  · omega
  · omega
  · have product : 4 * s * den = 4 * (s * den) := Nat.mul_assoc _ _ _
    have most : s * den ≤ (2 * unitBit - 1) * den := Nat.mul_le_mul_right den (by omega)
    rw [product] at step
    rcases low with low | ⟨rfl, low⟩
    · have width : (neighbourhood m).high - (neighbourhood m).low = 4 := by omega
      rw [width]
      rw [unit] at most
      omega
    · have width : (neighbourhood m).high - (neighbourhood m).low = 3 := by omega
      rw [width]
      rw [unit] at step
      omega

theorem near_searchShortest {m : Nat} (positive : 0 < m) (count fuel : Nat)
    (last : count + fuel = 18) (more : 0 < fuel) :
    (searchShortest (neighbourhood m) (scaled m).2 (power m) count fuel).Near m := by
  induction fuel generalizing count with
  | zero => exact absurd more (Nat.lt_irrefl 0)
  | succ fuel ih =>
    rw [searchShortest]
    split
    · next x found => exact Decimal.Near.trimmed (near_of_holds (holds_of_onGrid? found)) 17
    · next none =>
      rcases Nat.eq_zero_or_pos fuel with rfl | more
      · have seventeen : count = 17 := by omega
        have some := onGrid?_seventeen positive
        have step : power m + 1 - (count : Int) = power m - 16 := by omega
        have absent : (neighbourhood m).onGrid? (stepNum (scaled m).2 (power m + 1 - count))
            (stepDen (scaled m).2 (power m + 1 - count)) = .none := none
        rw [step] at absent
        rw [absent] at some
        cases some
      · exact ih (count + 1) (by omega) more

theorem near_shortest {m : Nat} (positive : 0 < m) : (shortest m).Near m :=
  near_searchShortest positive 1 17 rfl (by decide)

end Idl.Double
