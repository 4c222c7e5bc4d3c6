import Idl.Proofs.Token.Number
import Idl.Syntax.Printer.Type
import Mathlib.Tactic.IntervalCases

/-!
Integers written in the digits of a base, and how they are read back. Main statements:
`isNumber_integer` and `integer_of_text`.
-/

set_option autoImplicit false

namespace Idl

/-! Digits. -/

section

variable {base n : Nat}

/-- Each character of a number is a digit of the base. -/
theorem exists_of_mem_toDigits {c : Char} (valid : 1 < base) (mem : c ∈ Nat.toDigits base n) :
    ∃ d < base, c = d.digitChar := by
  induction n using Nat.strongRecOn with
  | ind n ih =>
    by_cases single : n < base
    · rw [Nat.toDigits_of_lt_base single, List.mem_singleton] at mem
      exact ⟨n, single, mem⟩
    · have le : base ≤ n := Nat.not_lt.mp single
      rw [Nat.toDigits_of_base_le valid le, List.mem_append, List.mem_singleton] at mem
      obtain mem | last := mem
      · exact ih (n / base) (Nat.div_lt_self (by omega) valid) mem
      · exact ⟨n % base, Nat.mod_lt _ (by omega), last⟩

/-- Only zero begins with a zero. -/
theorem head_toDigits_ne_zero (valid : 1 < base) (positive : 0 < n) :
    (Nat.toDigits base n).head? ≠ some '0' := by
  induction n using Nat.strongRecOn with
  | ind n ih =>
    by_cases single : n < base
    · rw [Nat.toDigits_of_lt_base single, List.head?_singleton, Ne, Option.some.injEq,
        Nat.digitChar_eq_zero]
      omega
    · have le : base ≤ n := Nat.not_lt.mp single
      have front := ih (n / base) (Nat.div_lt_self positive valid) (Nat.div_pos le (by omega))
      obtain ⟨c, cs, digits⟩ := List.exists_cons_of_ne_nil
        (Nat.toDigits_ne_nil (n := n / base) (b := base))
      rw [digits] at front
      rw [Nat.toDigits_of_base_le valid le, digits]
      exact front

end

theorem Radix.base_valid (radix : Radix) : 1 < radix.base ∧ radix.base ≤ 16 := by
  cases radix <;> decide

namespace Lexeme

theorem digit?_digitChar {base d : Nat} (small : d < base) (le : base ≤ 16) :
    digit? base d.digitChar = some d := by
  have bound : d < 16 := by omega
  interval_cases d <;> simp [digit?, Nat.digitChar, small]

theorem readDigits_append {radix : Radix} {n m : Nat} {xs : List Char}
    (read : readDigits radix n xs = .ok m) (ys : List Char) :
    readDigits radix n (xs ++ ys) = readDigits radix m ys := by
  induction xs generalizing n with
  | nil =>
    cases read
    rfl
  | cons c xs ih =>
    rw [readDigits] at read
    rw [List.cons_append, readDigits]
    split at read
    · cases read
    · split at read
      · next fits =>
        rw [if_pos fits]
        exact ih read
      · cases read

/-- A number of 64 bits is read back from its digits. -/
theorem readDigits_toDigits (radix : Radix) {n : Nat} (small : n < UInt64.size) :
    readDigits radix 0 (Nat.toDigits radix.base n) = .ok n := by
  obtain ⟨valid, le⟩ := radix.base_valid
  induction n using Nat.strongRecOn with
  | ind n ih =>
    by_cases single : n < radix.base
    · rw [Nat.toDigits_of_lt_base single, readDigits, digit?_digitChar single le]
      simp only [Nat.mul_zero, Nat.zero_add, if_pos small, readDigits]
    · have lower : n / radix.base < n := Nat.div_lt_self (by omega) valid
      have front := ih (n / radix.base) lower (Nat.lt_trans lower small)
      have last : n % radix.base < radix.base := Nat.mod_lt _ (by omega)
      rw [Nat.toDigits_of_base_le valid (Nat.not_lt.mp single), readDigits_append front, readDigits,
        digit?_digitChar last le]
      simp only [Nat.div_add_mod, if_pos small, readDigits]

theorem readUnsigned_toDigits (radix : Radix) {n : Nat} (small : n < UInt64.size) :
    readUnsigned radix (Nat.toDigits radix.base n) = .ok n := by
  have read := readDigits_toDigits radix small
  have unsigned {c : Char} (mem : c ∈ Nat.toDigits radix.base n) : c ≠ '+' := by
    obtain ⟨valid, le⟩ := radix.base_valid
    obtain ⟨d, small, rfl⟩ := exists_of_mem_toDigits valid mem
    have bound : d < 16 := by omega
    interval_cases d <;> decide
  cases digits : Nat.toDigits radix.base n with
  | nil => exact absurd digits Nat.toDigits_ne_nil
  | cons c cs =>
    rw [digits] at read unsigned
    rw [readUnsigned]
    · simpa using read
    · rintro ds eq
      exact unsigned (List.mem_cons_self ..) (List.cons.inj eq).1

end Lexeme

/-! Shapes. -/

/-- No name, number or quoted literal goes on here. -/
def Delimited (after : List Char) : Prop :=
  ∀ c ∈ after.head?, Shape.continuesWord c = false ∧ c ≠ '.' ∧ c ≠ '\'' ∧ c ≠ '"'

namespace Shape

variable {after : List Char}

theorem digits_toDigits {base n : Nat} (valid : 1 < base) (le : base ≤ 10) :
    ∀ c ∈ Nat.toDigits base n, isDigit c = true := by
  intro c mem
  obtain ⟨d, small, rfl⟩ := exists_of_mem_toDigits valid mem
  have bound : d < 10 := by omega
  interval_cases d <;> decide

theorem hexDigits_toDigits {base n : Nat} (valid : 1 < base) (le : base ≤ 16) :
    ∀ c ∈ Nat.toDigits base n, isHexDigit c = true := by
  intro c mem
  obtain ⟨d, small, rfl⟩ := exists_of_mem_toDigits valid mem
  have bound : d < 16 := by omega
  interval_cases d <;> decide

theorem isNumber_decimal (n : Nat) : IsNumber .decimal (Nat.toDigits 10 n) := by
  have digits : IsDigits (Nat.toDigits 10 n) :=
    ⟨Nat.toDigits_ne_nil, digits_toDigits (by decide) (by decide)⟩
  apply IsNumber.decimal digits
  -- only zero begins with a zero, and is no more than that
  intro d es eq
  obtain rfl | positive := Nat.eq_zero_or_pos n
  · rw [Nat.toDigits_zero] at eq
    cases eq
  · apply head_toDigits_ne_zero (by decide : 1 < 10) positive
    rw [eq]
    rfl

theorem isNumber_octal (n : Nat) : IsNumber .octal ('0' :: Nat.toDigits 8 n) :=
  .octal ⟨Nat.toDigits_ne_nil, digits_toDigits (by decide) (by decide)⟩

theorem isNumber_hex (n : Nat) : IsNumber .hex ('0' :: 'x' :: Nat.toDigits 16 n) :=
  .hex (.inl rfl) Nat.toDigits_ne_nil (hexDigits_toDigits (by decide) (by decide))

end Shape

/-! Integer literals. -/

/-- The class of the integers of a radix. -/
def Radix.kind : Radix → LiteralKind
  | .decimal => .decimal
  | .octal => .octal
  | .hex => .hex

/-- What stands in front of the digits. -/
def Radix.lead : Radix → List Char
  | .decimal => []
  | .octal => ['0']
  | .hex => ['0', 'x']

theorem toList_integer (n : Nat) (radix : Radix) :
    (Literal.integer n radix).text.toList = radix.lead ++ Nat.toDigits radix.base n := by
  cases radix <;> simp [Literal.text, digitsText, Radix.lead, Radix.base]

/-- An integer is a number of the class of its radix. -/
theorem isNumber_integer (n : Nat) (radix : Radix) :
    Shape.IsNumber radix.kind (Literal.integer n radix).text.toList := by
  rw [toList_integer]
  cases radix with
  | decimal => exact Shape.isNumber_decimal n
  | octal => exact Shape.isNumber_octal n
  | hex => exact Shape.isNumber_hex n

theorem integer_eq (radix : Radix) (lexeme : List Char) :
    Lexeme.integer radix.kind lexeme =
      (Lexeme.readUnsigned radix (Lexeme.dropBytes radix.lead.length lexeme)).map (·, radix) := by
  cases radix with
  | decimal => rw [Radix.lead, List.length_nil, Lexeme.dropBytes]; rfl
  | octal => rfl
  | hex => rfl

/-- An integer of 64 bits has the value and the radix that it was written with. -/
theorem integer_of_text {n : Nat} (radix : Radix) (small : n < UInt64.size) :
    Lexeme.integer radix.kind (Literal.integer n radix).text.toList = .ok (n, radix) := by
  have digits : Lexeme.dropBytes radix.lead.length (radix.lead ++ Nat.toDigits radix.base n) =
      Nat.toDigits radix.base n := by
    cases radix <;> simp [Radix.lead, Lexeme.dropBytes, Char.utf8Size]
  rw [integer_eq, toList_integer, digits, Lexeme.readUnsigned_toDigits radix small]
  rfl

theorem fault?_of_integer {n : Nat} (radix : Radix) (small : n < UInt64.size) :
    Lexeme.fault? radix.kind (Literal.integer n radix).text.toList = none := by
  have reason (lexeme : List Char) : Lexeme.fault? radix.kind lexeme =
      Lexeme.fault?.reason (Lexeme.integer radix.kind lexeme) := by
    cases radix <;> rfl
  rw [reason, integer_of_text radix small]
  rfl

end Idl
