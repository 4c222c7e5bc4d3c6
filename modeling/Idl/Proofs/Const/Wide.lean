import Idl.Const.Eval
import Mathlib.Data.Int.Bitwise
import Mathlib.Tactic.Linarith

/-!
Arithmetic with 128 bits against arithmetic without a bound. On operands of any integer kind,
128 bits hold each result that a kind can hold, and bits are those of two's complement. Main
statement: `IntKind.binary_of_exact`.
-/

set_option autoImplicit false

namespace Idl

/-! Bits of integers. -/

theorem int_eq_of_testBit_eq {a b : Int} (same : ∀ i, a.testBit i = b.testBit i) : a = b := by
  -- high bits tell the sign
  have signs {m n : Nat} (same : ∀ i, m.testBit i = !n.testBit i) : False := by
    have below : m < 2 ^ (m + n) := Nat.lt_of_le_of_lt (Nat.le_add_right m n) Nat.lt_two_pow_self
    have below' : n < 2 ^ (m + n) := Nat.lt_of_le_of_lt (Nat.le_add_left n m) Nat.lt_two_pow_self
    have high := same (m + n)
    rw [Nat.testBit_lt_two_pow below, Nat.testBit_lt_two_pow below'] at high
    cases high
  cases a with
  | ofNat m =>
    cases b with
    | ofNat n => exact congrArg Int.ofNat (Nat.eq_of_testBit_eq same)
    | negSucc n => exact (signs same).elim
  | negSucc m =>
    cases b with
    | ofNat n => exact (signs fun i => (same i).symm).elim
    | negSucc n =>
      exact congrArg Int.negSucc (Nat.eq_of_testBit_eq fun i => Bool.not_inj (same i))

/-- The bits of a word go on with its sign. -/
theorem testBit_toInt {w : Nat} (x : BitVec w) (i : Nat) :
    x.toInt.testBit i = if i < w then x.getLsbD i else x.msb := by
  rw [BitVec.toInt_eq_msb_cond]
  cases sign : x.msb with
  | false =>
    have bits : ((x.toNat : Nat) : Int).testBit i = x.getLsbD i := rfl
    rw [if_neg Bool.false_ne_true, bits]
    split
    · rfl
    · next outside => exact BitVec.getLsbD_of_ge x i (Nat.le_of_not_lt outside)
  | true =>
    have negative : (x.toNat : Int) - (2 ^ w : Nat) = Int.negSucc (2 ^ w - (x.toNat + 1)) := by
      have below := x.isLt
      omega
    have bits : (Int.negSucc (2 ^ w - (x.toNat + 1))).testBit i =
        !(2 ^ w - (x.toNat + 1)).testBit i := rfl
    rw [if_pos rfl, negative, bits, Nat.testBit_two_pow_sub_succ x.isLt]
    by_cases inside : i < w <;> simp [inside, BitVec.getLsbD]

/-- An operation on each bit of words is the operation on each bit of the numbers. -/
theorem toInt_of_bits {w : Nat} {x y z : BitVec w} {f : Bool → Bool → Bool}
    {g : Int → Int → Int} (bits : ∀ i, i < w → z.getLsbD i = f (x.getLsbD i) (y.getLsbD i))
    (sign : z.msb = f x.msb y.msb)
    (spec : ∀ a b i, (g a b).testBit i = f (a.testBit i) (b.testBit i)) :
    z.toInt = g x.toInt y.toInt := by
  refine int_eq_of_testBit_eq fun i => ?_
  rw [spec, testBit_toInt, testBit_toInt, testBit_toInt]
  split
  · next inside => exact bits i inside
  · exact sign

theorem toInt_and {w : Nat} (x y : BitVec w) : (x &&& y).toInt = x.toInt.land y.toInt :=
  toInt_of_bits (f := and) (fun _ _ => BitVec.getLsbD_and) BitVec.msb_and Int.testBit_land

theorem toInt_or {w : Nat} (x y : BitVec w) : (x ||| y).toInt = x.toInt.lor y.toInt :=
  toInt_of_bits (f := or) (fun _ _ => BitVec.getLsbD_or) BitVec.msb_or Int.testBit_lor

theorem toInt_xor {w : Nat} (x y : BitVec w) : (x ^^^ y).toInt = x.toInt.xor y.toInt :=
  toInt_of_bits (f := xor) (fun _ _ => BitVec.getLsbD_xor) BitVec.msb_xor Int.testBit_lxor

theorem toInt_not (x : BitVec 128) : (~~~x).toInt = -x.toInt - 1 := by
  have below := x.isLt
  rw [BitVec.toInt_eq_msb_cond, BitVec.toInt_eq_msb_cond, BitVec.toNat_not, BitVec.msb_not]
  cases x.msb <;> simp <;> omega

namespace IntKind

/-! What 128 bits hold. -/

theorem wide_eq_self {v : Int} (low : -2 ^ 127 ≤ v) (high : v < 2 ^ 127) : wide v = v :=
  BitVec.toInt_ofInt_eq_self (w := 128) (by decide) low high

theorem toInt_ofInt_wide (v : Int) : (BitVec.ofInt 128 v).toInt = wide v := rfl

/-- Numbers of all kinds are within 64 bits and their sign. -/
theorem bounds (k : IntKind) : -2 ^ 63 ≤ k.min ∧ k.min ≤ 0 ∧ 0 < k.max ∧ k.max < 2 ^ 64 := by
  cases k <;> decide

theorem bits_le (k : IntKind) : k.bits ≤ 64 := by cases k <;> decide

/-- An operand of the kind: a number of the kind, or the magnitude of its least one. -/
theorem admitsOperand_iff {k : IntKind} {v : Int} :
    k.admitsOperand v = true ↔ k.min ≤ v ∧ v ≤ Max.max k.max (-k.min) := by
  simp [admitsOperand, operandMax]

theorem operand_bounds {k : IntKind} {v : Int} (admits : k.admitsOperand v = true) :
    -2 ^ 63 ≤ v ∧ v < 2 ^ 64 := by
  have kind := k.bounds
  rw [admitsOperand_iff, le_max_iff] at admits
  omega

theorem admitsOperand_of_contains {k : IntKind} {v : Int} (inside : k.contains v = true) :
    k.admitsOperand v = true := by
  rw [contains_iff] at inside
  exact admitsOperand_iff.mpr ⟨inside.1, le_max_of_le_left inside.2⟩

theorem wide_of_operand {k : IntKind} {v : Int} (admits : k.admitsOperand v = true) :
    wide v = v := by
  have within := operand_bounds admits
  exact wide_eq_self (by omega) (by omega)

/-- What a kind holds, 128 bits hold. -/
theorem filter_wide? (k : IntKind) (v : Int) :
    (wide? v).filter k.contains = (some v).filter k.contains := by
  rw [wide?]
  split
  · rfl
  · next outside =>
    have other : ¬ k.contains v = true := fun inside =>
      outside (wide_of_operand (admitsOperand_of_contains inside))
    simp [Option.filter, other]

/-! Operators. -/

/-- The result of a binary operator among all integers, where there is one. Quotients are truncated
toward zero, shifts are by less than the width, and bits are those of two's complement. -/
def exactBinary? (k : IntKind) (op : BinaryOp) (a b : Int) : Option Int :=
  match op with
  | .add => some (a + b)
  | .sub => some (a - b)
  | .mul => some (a * b)
  | .div => if b = 0 then none else some (a.tdiv b)
  | .mod => if b = 0 then none else some (a.tmod b)
  | .shl => if 0 ≤ b ∧ b < k.bits then some (a * 2 ^ b.toNat) else none
  | .shr => if 0 ≤ b ∧ b < k.bits then some (a / 2 ^ b.toNat) else none
  | .and => some (a.land b)
  | .or => some (a.lor b)
  | .xor => some (a.xor b)

/-- All bits of a number of the kind flipped. -/
def exactComplement (k : IntKind) (v : Int) : Int := if k.signed then -v - 1 else k.max - v

section

variable {k : IntKind} {a b v : Int}

theorem wide_quotient (first : k.admitsOperand a = true) : wide (a.tdiv b) = a.tdiv b := by
  have within := operand_bounds first
  have size : (a.tdiv b).natAbs ≤ a.natAbs := by
    rw [Int.natAbs_tdiv]
    exact Nat.div_le_self _ _
  exact wide_eq_self (by omega) (by omega)

theorem wide_power (amount : b < k.bits) : wide ((1 : Int) <<< b.toNat) = 2 ^ b.toNat := by
  have exponent : b.toNat ≤ 63 := by
    have width := k.bits_le
    omega
  have power : (1 : Int) <<< b.toNat = 2 ^ b.toNat := by rw [Int.shiftLeft_eq, Int.one_mul]
  have positive : (0 : Int) < 2 ^ b.toNat := Int.pow_pos (by decide)
  have small : (2 : Int) ^ b.toNat ≤ 2 ^ 63 := pow_le_pow_right₀ (by decide) exponent
  rw [power]
  exact wide_eq_self (by linarith) (by linarith)

theorem toInt_sshiftRight_of_operand (first : k.admitsOperand a = true) (n : Nat) :
    ((BitVec.ofInt 128 a).sshiftRight n).toInt = a / 2 ^ n := by
  rw [BitVec.toInt_sshiftRight, toInt_ofInt_wide, wide_of_operand first,
    Int.shiftRight_eq_div_pow]
  norm_cast

/-- Where an operator has an exact result, 128 bits give it, unless it is out of range. -/
theorem binary_of_exact {op : BinaryOp} (first : k.admitsOperand a = true)
    (second : k.admitsOperand b = true) (exact : k.exactBinary? op a b = some v) :
    ∃ w, k.binary op a b = .ok w ∧ w.filter k.contains = (some v).filter k.contains := by
  -- the operands as words
  have word := wide_of_operand first
  have word' := wide_of_operand second
  cases op with
  | add => cases exact; exact ⟨_, rfl, k.filter_wide? _⟩
  | sub => cases exact; exact ⟨_, rfl, k.filter_wide? _⟩
  | mul => cases exact; exact ⟨_, rfl, k.filter_wide? _⟩
  | div =>
    simp only [exactBinary?, Option.ite_none_left_eq_some, Option.some.injEq] at exact
    obtain ⟨divisor, rfl⟩ := exact
    exact ⟨_, if_neg divisor, k.filter_wide? _⟩
  | mod =>
    simp only [exactBinary?, Option.ite_none_left_eq_some, Option.some.injEq] at exact
    obtain ⟨divisor, rfl⟩ := exact
    refine ⟨_, if_neg divisor, ?_⟩
    rw [wide?, if_pos (wide_quotient first)]
    rfl
  | shl =>
    simp only [exactBinary?, Option.ite_none_right_eq_some, Option.some.injEq] at exact
    obtain ⟨amount, rfl⟩ := exact
    refine ⟨_, if_pos amount, ?_⟩
    rw [wide_power amount.2]
    exact k.filter_wide? _
  | shr =>
    simp only [exactBinary?, Option.ite_none_right_eq_some, Option.some.injEq] at exact
    obtain ⟨amount, rfl⟩ := exact
    refine ⟨_, if_pos amount, ?_⟩
    rw [toInt_sshiftRight_of_operand first]
  | and =>
    cases exact
    exact ⟨_, rfl, by rw [bitwise, toInt_and, toInt_ofInt_wide, toInt_ofInt_wide, word, word']⟩
  | or =>
    cases exact
    exact ⟨_, rfl, by rw [bitwise, toInt_or, toInt_ofInt_wide, toInt_ofInt_wide, word, word']⟩
  | xor =>
    cases exact
    exact ⟨_, rfl, by rw [bitwise, toInt_xor, toInt_ofInt_wide, toInt_ofInt_wide, word, word']⟩

/-- Where an operator has no exact result, no overflow is reported. -/
theorem binary_of_undefined {op : BinaryOp} (undefined : k.exactBinary? op a b = none) :
    ∃ fault, k.binary op a b = .error fault ∧ ∀ type, fault ≠ .overflow type := by
  cases op with
  | div | mod =>
    simp only [exactBinary?, ite_eq_left_iff, reduceCtorEq, imp_false, Decidable.not_not]
      at undefined
    exact ⟨.divisionByZero, if_pos undefined, by simp⟩
  | shl | shr =>
    simp only [exactBinary?, ite_eq_right_iff, reduceCtorEq, imp_false] at undefined
    exact ⟨.shiftOutOfRange b k.text, if_neg undefined, by simp⟩
  | _ => cases undefined

/-- The difference that flips the bits of an unsigned number does not wrap. -/
theorem wide_difference (operand : k.admitsOperand v = true) : wide (k.max - v) = k.max - v := by
  have within := operand_bounds operand
  have kind := k.bounds
  exact wide_eq_self (by omega) (by omega)

theorem complement_of_operand (operand : k.admitsOperand v = true) :
    k.complement v = k.exactComplement v := by
  rw [complement, exactComplement, wide_difference operand]
  split
  · rw [toInt_not, toInt_ofInt_wide, wide_of_operand operand]
  · rfl

end

end IntKind

end Idl
