import Idl.Proofs.Token.Fine

/-!
The values of literals. Integers take 64 bits; what begins with a digit or a point is a number and
not negative.
-/

set_option autoImplicit false

namespace Idl

namespace Lexeme

theorem readDigits_lt {radix : Radix} {cs : List Char} {n v : Nat}
    (read : readDigits radix n cs = .ok v) (small : n < UInt64.size) : v < UInt64.size := by
  induction cs generalizing n with
  | nil =>
    cases read
    exact small
  | cons c cs ih =>
    rw [readDigits] at read
    split at read
    · cases read
    · split at read
      · next fits => exact ih read fits
      · cases read

theorem readUnsigned_lt {radix : Radix} {cs : List Char} {v : Nat}
    (read : readUnsigned radix cs = .ok v) : v < UInt64.size := by
  obtain ⟨digits, eq⟩ : ∃ digits : List Char, readUnsigned radix cs =
      if digits.isEmpty then .error (.badDigit radix) else readDigits radix 0 digits := ⟨_, rfl⟩
  rw [eq] at read
  split at read
  · cases read
  · exact readDigits_lt read (by decide)

theorem lt_of_map_ok {r : Except LiteralFault Nat} {radix : Radix} {v : Nat × Radix}
    (read : r.map (·, radix) = .ok v) (small : ∀ n, r = .ok n → n < UInt64.size) :
    v.1 < UInt64.size := by
  cases r with
  | error e => cases read
  | ok n =>
    cases read
    exact small n rfl

theorem integer_lt {kind : LiteralKind} {lexeme : List Char} {v : Nat × Radix}
    (read : integer kind lexeme = .ok v) : v.1 < UInt64.size := by
  unfold integer at read
  split at read <;> exact lt_of_map_ok read fun _ => readUnsigned_lt

end Lexeme

namespace Double

theorem toNat_ofMagnitude {m : Nat} (small : m ≤ infinityBits) :
    (ofMagnitude false m).bits.toNat = m := by
  have limit : infinityBits < 2 ^ 64 := by decide
  simp only [ofMagnitude, Bool.false_eq_true, if_false, Nat.zero_add, UInt64.toNat_ofNat']
  exact Nat.mod_eq_of_lt (Nat.lt_of_le_of_lt small limit)

theorem magnitude_ofMagnitude {m : Nat} (small : m ≤ infinityBits) :
    (ofMagnitude false m).magnitude = m := by
  have limit : infinityBits < signBit := by decide
  rw [magnitude, toNat_ofMagnitude small]
  exact Nat.mod_eq_of_lt (Nat.lt_of_le_of_lt small limit)

theorem negative_ofMagnitude {m : Nat} (small : m ≤ infinityBits) :
    (ofMagnitude false m).negative = false := by
  have limit : infinityBits < signBit := by decide
  rw [negative, decide_eq_false_iff_not, ge_iff_le, UInt64.le_iff_toNat_le,
    toNat_ofMagnitude small]
  exact Nat.not_le.mpr (Nat.lt_of_le_of_lt small limit)

theorem isNaN_ofMagnitude {m : Nat} (small : m ≤ infinityBits) :
    (ofMagnitude false m).isNaN = false := by
  rw [isNaN, magnitude_ofMagnitude small, decide_eq_false_iff_not]
  exact Nat.not_lt.mpr small

theorem nearestMagnitude_le (num den : Nat) : nearestMagnitude num den ≤ infinityBits :=
  Nat.min_le_right _ _

/-- What is read from digits without a sign is some magnitude up to infinity. -/
theorem exists_ofDecimal (digits : Nat) (exponent : Int) :
    ∃ m ≤ infinityBits, ofDecimal false digits exponent = ofMagnitude false m := by
  rw [ofDecimal]
  split
  · exact ⟨0, Nat.zero_le _, rfl⟩
  · split
    · exact ⟨infinityBits, Nat.le_refl _, rfl⟩
    · split
      · exact ⟨_, nearestMagnitude_le _ _, rfl⟩
      · exact ⟨_, nearestMagnitude_le _ _, rfl⟩

/-- What is read as a number without a sign has a magnitude. -/
theorem magnitude_of_readNumber? {cs : List Char} {x : Double}
    (read : readNumber? false cs = some x) : ∃ m ≤ infinityBits, x = ofMagnitude false m := by
  obtain ⟨digits, places, rest, eq⟩ : ∃ digits places rest : List Char, readNumber? false cs =
      if digits.isEmpty then none
      else (readExponent? rest).map fun e =>
        ofDecimal false (digitsValue digits) (e - places.length) := ⟨_, _, _, rfl⟩
  rw [eq] at read
  split at read
  · cases read
  · obtain ⟨e, -, rfl⟩ := Option.map_eq_some_iff.mp read
    exact exists_ofDecimal _ _

end Double

namespace Lexeme

section

variable {c : Char} (numeral : Shape.isDigit c = true ∨ c = '.')

include numeral

theorem ne_of_numeral {d : Char} (other : (Shape.isDigit d || d == '.') = false) : c ≠ d := by
  rintro rfl
  rcases numeral with digit | rfl
  · rw [digit] at other
    cases other
  · cases other

theorem toLower_of_numeral : c.toLower = c := by
  apply dif_neg
  rintro ⟨upper, -⟩
  rw [ge_iff_le, UInt32.le_iff_toNat_le] at upper
  rcases numeral with digit | rfl
  · rw [Shape.isDigit, Bool.and_eq_true, decide_eq_true_eq, decide_eq_true_eq] at digit
    have below : c.val.toNat ≤ '9'.val.toNat := UInt32.le_iff_toNat_le.mp digit.2
    have apart : '9'.val.toNat < 'A'.val.toNat := by decide
    omega
  · exact absurd upper (by decide)

/-- A numeral without a sign has a magnitude for its value. -/
theorem float_of_numeral {cs : List Char} {x : Double} (read : float (c :: cs) = .ok x) :
    ∃ m ≤ Double.infinityBits, x = Double.ofMagnitude false m := by
  have unsigned : Double.readSign (c :: cs) = (false, c :: cs) := by
    rw [Double.readSign]
    · exact fun ds eq => ne_of_numeral numeral (by decide) (List.cons.inj eq).1
    · exact fun ds eq => ne_of_numeral numeral (by decide) (List.cons.inj eq).1
  have noWord : Double.readWord? false (c :: cs) = none := by
    have other (d : Char) (word : List Char) (differs : (Shape.isDigit d || d == '.') = false) :
        String.ofList ((c :: cs).map Char.toLower) ≠ String.ofList (d :: word) := by
      rw [Ne, String.ofList_inj, List.map_cons, toLower_of_numeral numeral]
      exact fun eq => ne_of_numeral numeral differs (List.cons.inj eq).1
    rw [Double.readWord?, if_neg, if_neg]
    · exact other 'n' ['a', 'n'] (by decide)
    · rw [Bool.or_eq_true, decide_eq_true_eq, decide_eq_true_eq]
      rintro (eq | eq)
      · exact other 'i' ['n', 'f'] (by decide) eq
      · exact other 'i' ['n', 'f', 'i', 'n', 'i', 't', 'y'] (by decide) eq
  rw [float, Double.read, List.isEmpty_cons] at read
  simp only [unsigned, noWord, Option.orElse_eq_orElse] at read
  cases number : Double.readNumber? false (c :: cs) with
  | none =>
    rw [number] at read
    cases read
  | some y =>
    rw [number] at read
    cases read
    exact Double.magnitude_of_readNumber? number

/-- The suffix of a fixed-point lexeme is not all of it. -/
theorem fixed_of_numeral {cs : List Char} {x : Double} (read : fixed (c :: cs) = .ok x) :
    ∃ m ≤ Double.infinityBits, x = Double.ofMagnitude false m := by
  have other : isFixedSuffix c = false := by
    rw [isFixedSuffix, Bool.or_eq_false_iff, decide_eq_false_iff_not, decide_eq_false_iff_not]
    exact ⟨ne_of_numeral numeral (by decide), ne_of_numeral numeral (by decide)⟩
  have front : ∃ ds, ((c :: cs).reverse.dropWhile isFixedSuffix).reverse = c :: ds := by
    rw [List.reverse_cons, List.dropWhile_append]
    split
    · exact ⟨[], by simp [other]⟩
    · exact ⟨_, List.reverse_concat⟩
  obtain ⟨ds, front⟩ := front
  rw [fixed, front] at read
  exact float_of_numeral numeral read

end

end Lexeme

end Idl
