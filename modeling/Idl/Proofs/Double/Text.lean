import Idl.Double.Text
import Idl.Proofs.Double.Shortest
import Mathlib.Data.List.Basic

/-!
The text of a double reads back as the double. Main statement: `read_magnitudeText`.
-/

set_option autoImplicit false

namespace Idl.Double

/-! Decimals near a magnitude. -/

theorem two_pow_le_ten_pow {a b : Nat} (least : a ≤ 3 * b) : 2 ^ a ≤ 10 ^ b :=
  calc 2 ^ a ≤ 2 ^ (3 * b) := Nat.pow_le_pow_right (by decide) least
    _ = 8 ^ b := Nat.pow_mul 2 3 b
    _ ≤ 10 ^ b := Nat.pow_le_pow_left (by decide) b

theorem scaled_exponent_le {m : Nat} (finite : m < infinityBits) : (scaled m).2 ≤ 2045 := by
  have eq := scaled_eq m
  have limit : infinityBits = 2047 * unitBit := by decide
  rcases Nat.eq_zero_or_pos (scaled m).2 with zero | normal
  · omega
  · have least := unitBit_le_scaled normal
    by_contra more
    have large : 2046 * unitBit ≤ (scaled m).2 * unitBit := Nat.mul_le_mul_right _ (by omega)
    omega

theorem le_of_mul_two_pow {a b x y : Nat} (le : a * 2 ^ x ≤ b * 2 ^ y) : a ≤ b * 2 ^ (y - x) := by
  apply Nat.le_of_mul_le_mul_right _ (Nat.two_pow_pos x)
  calc a * 2 ^ x ≤ b * 2 ^ y := le
    _ ≤ b * 2 ^ (y - x + x) := Nat.mul_le_mul_left b (Nat.pow_le_pow_right (by decide) (by omega))
    _ = b * 2 ^ (y - x) * 2 ^ x := by rw [Nat.pow_add, Nat.mul_assoc]

theorem mul_two_pow_add (n e : Nat) : n * 2 ^ (2 + e) = 4 * (n * 2 ^ e) := by
  rw [Nat.pow_add]
  ring

/-- A number near a magnitude is within the reach of decimals. -/
theorem Near.reach {m num den : Nat} (near : Near m num den) (positive : 0 < m)
    (finite : m < infinityBits) :
    ∃ c < decimalReach.toNat, den ≤ num * 10 ^ c ∧ num ≤ den * 10 ^ c := by
  obtain ⟨-, low, high, -⟩ := near
  have significand := scaled_pos positive
  have small := scaled_lt m
  have exponent := scaled_exponent_le finite
  have lowEnd : 1 ≤ (neighbourhood m).low := by
    simp only [neighbourhood]
    split <;> omega
  have highEnd : (neighbourhood m).high ≤ 2 ^ 56 := by
    have unit : 2 ^ 56 = 16 * unitBit := by decide
    simp only [neighbourhood]
    omega
  refine ⟨399, by decide, ?_, ?_⟩
  · have below : den * 2 ^ 0 ≤ num * 2 ^ (2 + 1074) := by
      calc den * 2 ^ 0 ≤ den * 2 ^ (scaled m).2 :=
            Nat.mul_le_mul_left den (Nat.pow_le_pow_right (by decide) (Nat.zero_le _))
        _ ≤ (neighbourhood m).low * (den * 2 ^ (scaled m).2) := Nat.le_mul_of_pos_left _ lowEnd
        _ ≤ 4 * (num * 2 ^ 1074) := low
        _ = num * 2 ^ (2 + 1074) := (mul_two_pow_add num 1074).symm
    exact Nat.le_trans (le_of_mul_two_pow below)
      (Nat.mul_le_mul_left num (two_pow_le_ten_pow (by omega)))
  · have above : num * 2 ^ (2 + 1074) ≤ den * 2 ^ (56 + (scaled m).2) := by
      calc num * 2 ^ (2 + 1074) = 4 * (num * 2 ^ 1074) := mul_two_pow_add num 1074
        _ ≤ (neighbourhood m).high * (den * 2 ^ (scaled m).2) := high
        _ ≤ 2 ^ 56 * (den * 2 ^ (scaled m).2) := Nat.mul_le_mul_right _ highEnd
        _ = den * 2 ^ (56 + (scaled m).2) := by rw [Nat.pow_add]; ring
    exact Nat.le_trans (le_of_mul_two_pow above)
      (Nat.mul_le_mul_left den (two_pow_le_ten_pow (by omega)))

/-- A decimal near a magnitude reads as the magnitude. -/
theorem ofDecimal_of_near {m digits : Nat} {exponent : Int}
    (near : (⟨digits, exponent⟩ : Decimal).Near m) (positive : 0 < m) (finite : m < infinityBits) :
    ofDecimal false digits exponent = ofMagnitude false m := by
  obtain ⟨c, within, least, most⟩ := near.reach positive finite
  simp only [Decimal.num, Decimal.den] at least most
  have reach : decimalReach = (decimalReach.toNat : Int) := by decide
  have nonzero : 0 < digits := by
    rcases Nat.eq_zero_or_pos digits with rfl | nonzero
    · rw [Nat.zero_mul, Nat.zero_mul] at least
      exact absurd least (Nat.not_le.mpr (Nat.pow_pos (by decide)))
    · exact nonzero
  have length : 0 < (Nat.toDigits 10 digits).length := Nat.length_toDigits_pos
  have upper : digits < 10 ^ (Nat.toDigits 10 digits).length :=
    (Nat.length_toDigits_le_iff (by decide) length).mp (Nat.le_refl _)
  have lower : 10 ^ ((Nat.toDigits 10 digits).length - 1) ≤ digits := by
    rcases Nat.eq_zero_or_pos ((Nat.toDigits 10 digits).length - 1) with zero | more
    · rw [zero]
      exact nonzero
    · apply Nat.le_of_not_lt
      intro less
      have shorter := (Nat.length_toDigits_le_iff (by decide) more).mpr less
      omega
  have notSmall : ¬ ((Nat.toDigits 10 digits).length + exponent < -decimalReach) := by
    intro small
    have zero : exponent.toNat = 0 := by omega
    rw [zero, Nat.pow_zero, Nat.mul_one] at least
    have product : digits * 10 ^ c < 10 ^ (-exponent).toNat :=
      calc digits * 10 ^ c < 10 ^ (Nat.toDigits 10 digits).length * 10 ^ c :=
            Nat.mul_lt_mul_of_pos_right upper (Nat.pow_pos (by decide))
        _ = 10 ^ ((Nat.toDigits 10 digits).length + c) := (Nat.pow_add _ _ _).symm
        _ ≤ 10 ^ (-exponent).toNat := Nat.pow_le_pow_right (by decide) (by omega)
    omega
  have notLarge : ¬ (decimalReach < (Nat.toDigits 10 digits).length + exponent) := by
    intro large
    have product : 10 ^ (-exponent).toNat * 10 ^ c < digits * 10 ^ exponent.toNat :=
      calc 10 ^ (-exponent).toNat * 10 ^ c = 10 ^ ((-exponent).toNat + c) :=
            (Nat.pow_add _ _ _).symm
        _ < 10 ^ ((Nat.toDigits 10 digits).length - 1 + exponent.toNat) :=
            Nat.pow_lt_pow_right (by decide) (by omega)
        _ = 10 ^ ((Nat.toDigits 10 digits).length - 1) * 10 ^ exponent.toNat := Nat.pow_add _ _ _
        _ ≤ digits * 10 ^ exponent.toNat := Nat.mul_le_mul_right _ lower
    omega
  have rounds := near.nearestMagnitude finite
  simp only [Decimal.num, Decimal.den] at rounds
  rw [ofDecimal, if_neg (by simp [Nat.ne_of_gt nonzero, notSmall]), if_neg notLarge]
  split
  · next negative =>
    have zero : exponent.toNat = 0 := by omega
    rw [zero, Nat.pow_zero, Nat.mul_one] at rounds
    exact congrArg (ofMagnitude false) rounds
  · next positive =>
    have zero : (-exponent).toNat = 0 := by omega
    rw [zero, Nat.pow_zero] at rounds
    exact congrArg (ofMagnitude false) rounds

/-- A decimal with zeros behind its digits. -/
theorem Decimal.Near.padded {m : Nat} {d : Decimal} (near : d.Near m) (n : Nat) :
    (⟨d.digits * 10 ^ n, d.exponent - n⟩ : Decimal).Near m := by
  induction n with
  | zero => simpa using near
  | succ n ih =>
    have eq := Decimal.shift_eq (d.digits * 10 ^ n) (d.exponent - (n + 1 : Nat))
    have whole : 10 * (d.digits * 10 ^ n) = d.digits * 10 ^ (n + 1) := by ring
    have exponent : d.exponent - (n + 1 : Nat) + 1 = d.exponent - n := by push_cast; ring
    rw [whole, exponent] at eq
    exact Double.Near.congr ih (Decimal.den_pos _) eq.symm

/-! Digits and numerals. -/

/-- A number as it is written: digits, and perhaps a point with digits behind it and an exponent. -/
structure Numeral where
  whole : List Char
  places : Option (List Char)
  exponent : Option Int

namespace Numeral

def chars (n : Numeral) : List Char :=
  n.whole ++ (match n.places with
    | some ds => '.' :: ds
    | none => []) ++ (match n.exponent with
    | some e => 'e' :: (toString e).toList
    | none => [])

/-- What is called a digit is one, and some digit is there. -/
structure Proper (n : Numeral) : Prop where
  whole : ∀ c ∈ n.whole, c.isDigit = true
  nonempty : n.whole ≠ []
  places : ∀ ds ∈ n.places, ∀ c ∈ ds, c.isDigit = true

def digits (n : Numeral) : List Char := n.whole ++ n.places.getD []

/-- The number, as digits and a power of ten. -/
def decimal (n : Numeral) : Decimal :=
  ⟨digitsValue n.digits, n.exponent.getD 0 - (n.places.getD []).length⟩

end Numeral

theorem digitsValue_eq (cs : List Char) : digitsValue cs = Nat.ofDigitChars 10 cs 0 := rfl

theorem digitsValue_toDigits (n : Nat) : digitsValue (Nat.toDigits 10 n) = n :=
  Nat.ofDigitChars_ten_toDigits

theorem isDigit_toDigits {n : Nat} {c : Char} (mem : c ∈ Nat.toDigits 10 n) : c.isDigit = true :=
  Nat.isDigit_of_mem_toDigits (by decide) (by decide) mem

theorem digitsValue_append (cs ds : List Char) :
    digitsValue (cs ++ ds) = Nat.ofDigitChars 10 ds (digitsValue cs) := by
  rw [digitsValue_eq, digitsValue_eq, Nat.ofDigitChars_append]

/-- Zeros behind the digits. -/
theorem digitsValue_zeros (ds : List Char) (n : Nat) :
    digitsValue (ds ++ List.replicate n '0') = digitsValue ds * 10 ^ n := by
  induction n with
  | zero => simp
  | succ n ih =>
    rw [List.replicate_succ', ← List.append_assoc, digitsValue_append, ih, Nat.ofDigitChars_cons,
      Nat.ofDigitChars_nil, Nat.pow_succ]
    simp only [Nat.sub_self, Nat.add_zero]
    ring

/-- Zeros in front of them. -/
theorem digitsValue_leading (n : Nat) (ds : List Char) :
    digitsValue (List.replicate n '0' ++ ds) = digitsValue ds := by
  have zeros := digitsValue_zeros [] n
  rw [List.nil_append] at zeros
  rw [digitsValue_append, zeros, digitsValue_eq ds]
  simp [digitsValue]

/-! Reading. -/

theorem takeWhile_digits {ds rest : List Char} (digits : ∀ c ∈ ds, c.isDigit = true)
    (stops : ∀ c ∈ rest.head?, c.isDigit = false) :
    (ds ++ rest).takeWhile Char.isDigit = ds ∧ (ds ++ rest).dropWhile Char.isDigit = rest := by
  rw [List.takeWhile_append_of_pos digits, List.dropWhile_append_of_pos digits]
  cases rest with
  | nil => simp
  | cons c cs =>
    have stop := stops c rfl
    simp [stop]

theorem readSign_digit {c : Char} {cs : List Char} (digit : c.isDigit = true) :
    readSign (c :: cs) = (false, c :: cs) := by
  rw [readSign]
  · rintro _ eq
    cases eq
    exact absurd digit (by decide)
  · rintro _ eq
    cases eq
    exact absurd digit (by decide)

theorem readExponent?_text (e : Int) : readExponent? ('e' :: (toString e).toList) = some e := by
  rw [Int.toString_eq_repr, Int.repr_eq_if]
  have digits (n : Nat) : (Nat.toDigits 10 n).all Char.isDigit = true :=
    List.all_eq_true.mpr fun c mem => isDigit_toDigits mem
  have some (n : Nat) : (Nat.toDigits 10 n).isEmpty = false := by
    rw [List.isEmpty_eq_false_iff]
    exact Nat.toDigits_ne_nil
  split
  · next positive =>
    have head (n : Nat) : readSign (Nat.toDigits 10 n) = (false, Nat.toDigits 10 n) := by
      cases eq : Nat.toDigits 10 n with
      | nil => rfl
      | cons c cs => exact readSign_digit (isDigit_toDigits (n := n) (by rw [eq]; simp))
    rw [Nat.toList_repr, readExponent?, head]
    simp only [digits, some, digitsValue_toDigits]
    simp [positive]
  · next negative =>
    rw [String.toList_append, Nat.toList_repr]
    have sign : readSign ("-".toList ++ Nat.toDigits 10 (-e).toNat) =
        (true, Nat.toDigits 10 (-e).toNat) := rfl
    rw [readExponent?, sign]
    simp only [digits, some, digitsValue_toDigits]
    simp
    omega

theorem readNumber?_point {whole places rest : List Char} (nonempty : whole ≠ [])
    (wholeDigits : ∀ c ∈ whole, c.isDigit = true) (placesDigits : ∀ c ∈ places, c.isDigit = true)
    (stops : ∀ c ∈ rest.head?, c.isDigit = false) :
    readNumber? false (whole ++ '.' :: (places ++ rest)) = (readExponent? rest).map fun e =>
      ofDecimal false (digitsValue (whole ++ places)) (e - places.length) := by
  have first : (whole ++ '.' :: (places ++ rest)).takeWhile Char.isDigit = whole ∧
      (whole ++ '.' :: (places ++ rest)).dropWhile Char.isDigit = '.' :: (places ++ rest) :=
    takeWhile_digits wholeDigits fun c mem => by cases mem; decide
  have second := takeWhile_digits placesDigits stops
  have some : (whole ++ places).isEmpty = false := by simp [nonempty]
  rw [readNumber?, first.1, first.2]
  simp only [second.1, second.2, some]
  rfl

theorem readNumber?_whole {whole rest : List Char} (nonempty : whole ≠ [])
    (wholeDigits : ∀ c ∈ whole, c.isDigit = true)
    (stops : ∀ c ∈ rest.head?, c.isDigit = false ∧ c ≠ '.') :
    readNumber? false (whole ++ rest) = (readExponent? rest).map fun e =>
      ofDecimal false (digitsValue whole) e := by
  have first := takeWhile_digits wholeDigits fun c mem => (stops c mem).1
  rw [readNumber?, first.1, first.2]
  split
  next places rest' eq =>
    split at eq
    · exact absurd rfl (stops '.' rfl).2
    · cases eq
      simp [nonempty]

theorem Numeral.read {n : Numeral} (proper : n.Proper) :
    Double.read n.chars = .ok (ofDecimal false n.decimal.digits n.decimal.exponent) := by
  obtain ⟨whole, places, exponent⟩ := n
  obtain ⟨wholeDigits, nonempty, placesDigits⟩ := proper
  dsimp only at wholeDigits nonempty placesDigits
  generalize tail : (match exponent with
    | some e => 'e' :: (toString e).toList
    | none => []) = rest
  have reads : readExponent? rest = some (exponent.getD 0) := by
    subst tail
    cases exponent with
    | some e => exact readExponent?_text e
    | none => rfl
  have stops : ∀ c ∈ rest.head?, c.isDigit = false ∧ c ≠ '.' := by
    subst tail
    cases exponent with
    | some e =>
      intro c mem
      cases mem
      decide
    | none =>
      intro c mem
      cases mem
  have number : readNumber? false (⟨whole, places, exponent⟩ : Numeral).chars =
      some (ofDecimal false (⟨whole, places, exponent⟩ : Numeral).decimal.digits
        (⟨whole, places, exponent⟩ : Numeral).decimal.exponent) := by
    rw [Numeral.chars]
    dsimp only
    rw [tail]
    cases places with
    | some ds =>
      have point := readNumber?_point nonempty wholeDigits (placesDigits ds rfl)
        fun c mem => (stops c mem).1
      rw [reads] at point
      rw [List.append_assoc, List.cons_append, point]
      rfl
    | none =>
      have plain := readNumber?_whole nonempty wholeDigits stops
      rw [reads] at plain
      rw [List.append_nil, plain]
      simp [Numeral.decimal, Numeral.digits]
  obtain ⟨c, cs, eq⟩ := List.exists_cons_of_ne_nil nonempty
  have front : ∃ more, (⟨whole, places, exponent⟩ : Numeral).chars = c :: more := by
    rw [Numeral.chars, eq]
    exact ⟨_, rfl⟩
  obtain ⟨more, front⟩ := front
  have sign : readSign (c :: more) = (false, c :: more) :=
    readSign_digit (wholeDigits c (by rw [eq]; simp))
  rw [front] at number ⊢
  rw [Double.read, List.isEmpty_cons, sign]
  simp only [number]
  rfl

/-! Writing. -/

/-- The digits that a magnitude is written with, and how. -/
def numeral (f : Format) (magnitude : Nat) : Numeral :=
  if magnitude = 0 then ⟨['0'], if f.point then some ['0'] else none, none⟩
  else
    let d := shortest magnitude
    let digits := Nat.toDigits 10 d.digits
    let point := digits.length + d.exponent
    if f.exponents && (16 < point || point < -3) then
      ⟨digits.take 1, if digits.length = 1 then none else some (digits.drop 1), some (point - 1)⟩
    else if point ≤ 0 then
      ⟨['0'], some (List.replicate (-point).toNat '0' ++ digits), none⟩
    else if point < digits.length then
      ⟨digits.take point.toNat, some (digits.drop point.toNat), none⟩
    else
      ⟨digits ++ List.replicate (point.toNat - digits.length) '0',
        if f.point then some ['0'] else none, none⟩

theorem magnitudeText_eq (f : Format) (m : Nat) : magnitudeText f m = (numeral f m).chars := by
  rw [magnitudeText, numeral]
  split
  · cases f.point <;> rfl
  · have nonempty : Nat.toDigits 10 (shortest m).digits ≠ [] := Nat.toDigits_ne_nil
    dsimp only
    generalize Nat.toDigits 10 (shortest m).digits = ds at *
    split
    · match ds, nonempty with
      | [d], _ => rfl
      | d :: e :: more, _ => simp [scientific, Numeral.chars]
    · rw [placed]
      split
      · simp [Numeral.chars]
      · split
        · simp [Numeral.chars]
        · cases f.point <;> simp [Numeral.chars]

theorem numeral_proper (f : Format) (m : Nat) : (numeral f m).Proper := by
  have zero : ∀ c ∈ ['0'], c.isDigit = true := fun c mem => by
    rw [List.mem_singleton.mp mem]
    rfl
  have zeros (n : Nat) : ∀ c ∈ List.replicate n '0', c.isDigit = true := fun c mem => by
    rw [List.eq_of_mem_replicate mem]
    rfl
  have point : ∀ ds ∈ (if f.point then some ['0'] else none : Option (List Char)),
      ∀ c ∈ ds, c.isDigit = true := by
    intro ds mem
    split at mem
    · cases mem
      exact zero
    · cases mem
  rw [numeral]
  split
  · exact ⟨zero, by simp, point⟩
  · have digits : ∀ c ∈ Nat.toDigits 10 (shortest m).digits, c.isDigit = true :=
      fun c mem => isDigit_toDigits mem
    have nonempty : Nat.toDigits 10 (shortest m).digits ≠ [] := Nat.toDigits_ne_nil
    dsimp only
    generalize Nat.toDigits 10 (shortest m).digits = ds at *
    split
    · refine ⟨fun c mem => digits c (List.mem_of_mem_take mem), by simp [nonempty], ?_⟩
      intro places mem
      split at mem
      · cases mem
      · cases mem
        exact fun c mem => digits c (List.mem_of_mem_drop mem)
    · split
      · refine ⟨zero, by simp, fun places mem => ?_⟩
        cases mem
        exact fun c mem => (List.mem_append.mp mem).elim (zeros _ c) (digits c)
      · next positive =>
        split
        · refine ⟨fun c mem => digits c (List.mem_of_mem_take mem), ?_, fun places mem => ?_⟩
          · simp only [ne_eq, List.take_eq_nil_iff, nonempty, or_false]
            omega
          · cases mem
            exact fun c mem => digits c (List.mem_of_mem_drop mem)
        · exact ⟨fun c mem => (List.mem_append.mp mem).elim (digits c) (zeros _ c),
            by simp [nonempty], point⟩

/-- The number that is written is near the magnitude. -/
theorem numeral_near (f : Format) {m : Nat} (positive : 0 < m) :
    (numeral f m).decimal.Near m := by
  have near := near_shortest positive
  have value := digitsValue_toDigits (shortest m).digits
  have nonempty : Nat.toDigits 10 (shortest m).digits ≠ [] := Nat.toDigits_ne_nil
  rw [numeral, if_neg (by omega)]
  dsimp only
  generalize shortest m = d at *
  generalize Nat.toDigits 10 d.digits = ds at *
  have length : 0 < ds.length := List.length_pos_iff.mpr nonempty
  have equal {e e' : Decimal} (near : e.Near m) (digits : e'.digits = e.digits)
      (exponent : e'.exponent = e.exponent) : e'.Near m := by
    obtain ⟨_, _⟩ := e
    obtain ⟨_, _⟩ := e'
    cases digits
    cases exponent
    exact near
  have parts (n : Nat) : digitsValue (ds.take n ++ ds.drop n) = d.digits := by
    rw [List.take_append_drop, value]
  split
  · split
    · next one =>
      refine equal near ?_ ?_
      · simp [Numeral.decimal, Numeral.digits, ← one, value]
      · simp [Numeral.decimal, one]
    · refine equal near (parts 1) ?_
      simp only [Numeral.decimal, Option.getD_some, List.length_drop]
      omega
  · split
    · refine equal near ?_ ?_
      · have zeros := digitsValue_leading (1 + (-(ds.length + d.exponent)).toNat) ds
        rw [Nat.add_comm, List.replicate_succ] at zeros
        simpa [Numeral.decimal, Numeral.digits, value] using zeros
      · simp only [Numeral.decimal, Option.getD_none, Option.getD_some, List.length_append,
          List.length_replicate]
        omega
    · split
      · refine equal near (parts _) ?_
        simp only [Numeral.decimal, Option.getD_none, Option.getD_some, List.length_drop]
        omega
      · next whole =>
        -- the zeros up to the point, and the one behind it, stand for powers of ten
        generalize zeros : (ds.length + d.exponent).toNat - ds.length = n
        have exponent : d.exponent = n := by omega
        cases f.point with
        | true =>
          refine equal (Decimal.Near.padded near (n + 1)) ?_ ?_
          · simp only [Numeral.decimal, Numeral.digits, if_true, Option.getD_some]
            rw [List.append_assoc, ← List.replicate_succ', digitsValue_zeros, value]
          · simp [Numeral.decimal, exponent]
        | false =>
          refine equal (Decimal.Near.padded near n) ?_ ?_
          · simp [Numeral.decimal, Numeral.digits, digitsValue_zeros, value]
          · simp [Numeral.decimal, exponent]

/-- The text of a finite magnitude reads back as the magnitude. -/
theorem read_magnitudeText (f : Format) {m : Nat} (finite : m < infinityBits) :
    Double.read (magnitudeText f m) = .ok (ofMagnitude false m) := by
  rw [magnitudeText_eq, Numeral.read (numeral_proper f m)]
  rcases Nat.eq_zero_or_pos m with rfl | positive
  · have zero : (numeral f 0).decimal.digits = 0 := by
      rw [numeral, if_pos rfl]
      cases f.point <;> rfl
    rw [ofDecimal, zero]
    rfl
  · exact congrArg _ (ofDecimal_of_near (numeral_near f positive) positive finite)

end Idl.Double
