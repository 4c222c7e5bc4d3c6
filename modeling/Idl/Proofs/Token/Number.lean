import Idl.Proofs.Token.Gaps
import Mathlib.Data.Option.Basic

/-!
The grammar of numbers, said without counting. What is counted at the front of a text is a number of
the grammar, and a number of the grammar is counted as a whole wherever nothing behind it goes on.
Main statements: `number?_append` and `exists_of_number?`.
-/

set_option autoImplicit false

namespace Idl.Shape

/-- At least one digit, and nothing else. -/
structure IsDigits (ds : List Char) : Prop where
  some : ds ≠ []
  all : ∀ c ∈ ds, isDigit c = true

/-- Digits with a point after, within or before them. -/
inductive IsMantissa : List Char → Prop
  | point {whole places : List Char} (front : ∀ c ∈ whole, isDigit c = true)
      (back : ∀ c ∈ places, isDigit c = true) (some : ¬ (whole = [] ∧ places = [])) :
      IsMantissa (whole ++ '.' :: places)

/-- A power of ten, perhaps with a sign. -/
inductive IsExponent : List Char → Prop
  | power {e : Char} {sign ds : List Char} (mark : e = 'e' ∨ e = 'E')
      (signed : sign = [] ∨ sign = ['+'] ∨ sign = ['-']) (digits : IsDigits ds) :
      IsExponent (e :: (sign ++ ds))

/-- The numbers of each class. -/
inductive IsNumber : LiteralKind → List Char → Prop
  | hex {x : Char} {ds : List Char} (mark : x = 'x' ∨ x = 'X') (some : ds ≠ [])
      (digits : ∀ c ∈ ds, isHexDigit c = true) : IsNumber .hex ('0' :: x :: ds)
  | fixed {n : List Char} {d : Char} (front : IsMantissa n ∨ IsDigits n)
      (mark : d = 'd' ∨ d = 'D') : IsNumber .fixed (n ++ [d])
  | float {n e : List Char} (mantissa : IsMantissa n) (exponent : e = [] ∨ IsExponent e) :
      IsNumber .float (n ++ e)
  | scientific {ds e : List Char} (digits : IsDigits ds) (exponent : IsExponent e) :
      IsNumber .float (ds ++ e)
  | octal {ds : List Char} (digits : IsDigits ds) : IsNumber .octal ('0' :: ds)
  | decimal {ds : List Char} (digits : IsDigits ds) (lead : ∀ d es, ds ≠ '0' :: d :: es) :
      IsNumber .decimal ds

/-- The character does not go on with a number of the class in front of it. -/
def EndsNumber (kind : LiteralKind) (c : Char) : Prop :=
  continuesWord c = false ∧ (kind = .decimal ∨ kind = .octal → c ≠ '.')

/-- The text begins with a digit or with a point. -/
def IsNumeral (text : List Char) : Prop :=
  ∃ c cs, text = c :: cs ∧ (isDigit c = true ∨ c = '.')

theorem IsMantissa.numeral {n : List Char} (mantissa : IsMantissa n) (after : List Char) :
    IsNumeral (n ++ after) := by
  cases mantissa with
  | @point whole places front _ _ =>
    cases whole with
    | nil => exact ⟨'.', _, rfl, .inr rfl⟩
    | cons d ds => exact ⟨d, _, rfl, .inl (front d List.mem_cons_self)⟩

theorem IsDigits.numeral {ds : List Char} (digits : IsDigits ds) (after : List Char) :
    IsNumeral (ds ++ after) := by
  obtain ⟨d, ds, rfl⟩ := List.exists_cons_of_ne_nil digits.some
  exact ⟨d, _, rfl, .inl (digits.all d List.mem_cons_self)⟩

theorem IsNumber.numeral {kind : LiteralKind} {text : List Char} (number : IsNumber kind text) :
    IsNumeral text := by
  cases number with
  | hex _ _ _ => exact ⟨'0', _, rfl, .inl rfl⟩
  | fixed front _ =>
    rcases front with mantissa | digits
    · exact mantissa.numeral _
    · exact digits.numeral _
  | float mantissa _ => exact mantissa.numeral _
  | scientific digits _ => exact digits.numeral _
  | octal _ => exact ⟨'0', _, rfl, .inl rfl⟩
  | decimal digits _ =>
    have numeral := digits.numeral []
    rwa [List.append_nil] at numeral

/-! Numbers of the grammar are counted. -/

section

variable {ds n e after : List Char}

/-- A run goes up to where its property ends. -/
theorem run_append {p : Char → Bool} (all : ∀ c ∈ ds, p c = true)
    (stop : ∀ c ∈ after.head?, p c = false) : run p (ds ++ after) = ds.length := by
  rw [run, List.takeWhile_append_of_pos all]
  cases after with
  | nil => simp
  | cons c cs =>
    have stop : p c = false := stop c rfl
    simp [stop]

theorem run_stop {p : Char → Bool} (stop : ∀ c ∈ after.head?, p c = false) : run p after = 0 :=
  run_append (List.forall_mem_nil _) stop

theorem continuesWord_of_isHexDigit {c : Char} (hex : isHexDigit c = true) :
    continuesWord c = true := by
  simp only [isHexDigit, Bool.or_eq_true, Bool.and_eq_true, decide_eq_true_eq] at hex
  simp only [continuesWord, isAlpha, Bool.or_eq_true, Bool.and_eq_true, decide_eq_true_eq]
  obtain (digit | ⟨first, last⟩) | ⟨first, last⟩ := hex
  · exact .inl (.inr digit)
  · exact .inl (.inl (.inl ⟨first, Char.le_trans last (by decide)⟩))
  · exact .inl (.inl (.inr ⟨first, Char.le_trans last (by decide)⟩))

theorem hex?_eq_none {c : Char} {cs : List Char} (other : ∀ x ∈ cs.head?, x ≠ 'x' ∧ x ≠ 'X') :
    hex? (c :: cs) = none := by
  rw [hex?.eq_def]
  split
  · next x ds eq =>
    obtain ⟨rfl, rfl⟩ := List.cons.inj eq
    obtain ⟨lower, upper⟩ := other x rfl
    simp [lower, upper]
  · rfl

theorem isDigit_of_continuesWord {c : Char} (other : continuesWord c = false) :
    isDigit c = false := by
  simp only [continuesWord, Bool.or_eq_false_iff] at other
  exact other.1.2

theorem digits?_append (digits : IsDigits ds) (stop : ∀ c ∈ after.head?, isDigit c = false) :
    digits? (ds ++ after) = some ds.length := by
  have count := run_append digits.all stop
  have positive : ds.length ≠ 0 := by simpa using digits.some
  rw [digits?, count, some?, if_neg positive]

theorem mantissa?_append (mantissa : IsMantissa n) (stop : ∀ c ∈ after.head?, isDigit c = false) :
    mantissa? (n ++ after) = some n.length := by
  cases mantissa with
  | @point whole places front back some =>
    have point : ∀ c ∈ ('.' :: (places ++ after)).head?, isDigit c = false := by
      intro c mem
      obtain rfl : '.' = c := by simpa using mem
      decide
    have wholeRun := run_append front point
    have placesRun := run_append back stop
    have counted : ¬ (whole.length = 0 ∧ places.length = 0) := by simpa using some
    rw [List.append_assoc, List.cons_append, mantissa?, wholeRun, List.drop_left]
    simp only [placesRun, List.length_append, List.length_cons]
    rw [if_neg (by simpa using counted)]
    congr 1
    omega

theorem mantissa?_eq_none (digits : ∀ c ∈ ds, isDigit c = true)
    (stop : ∀ c ∈ after.head?, isDigit c = false ∧ c ≠ '.') : mantissa? (ds ++ after) = none := by
  have count := run_append digits fun c mem => (stop c mem).1
  rw [mantissa?, count, List.drop_left]
  cases after with
  | nil => rfl
  | cons c cs =>
    have other : c ≠ '.' := (stop c rfl).2
    simp [other]

theorem exponent?_append (exponent : IsExponent e) (stop : ∀ c ∈ after.head?, isDigit c = false) :
    exponent? (e ++ after) = some e.length := by
  cases exponent with
  | @power e sign ds mark signed digits =>
    have count := digits?_append digits stop
    have letter : (e = 'e' || e = 'E') = true := by simpa using mark
    obtain ⟨d, rest, rfl⟩ := List.exists_cons_of_ne_nil digits.some
    have first : isDigit d = true := digits.all d List.mem_cons_self
    have plus : d ≠ '+' := by rintro rfl; cases first
    have minus : d ≠ '-' := by rintro rfl; cases first
    rw [List.cons_append] at count
    rcases signed with rfl | rfl | rfl
    · simp [exponent?, letter, plus, minus, count]
      omega
    · simp [exponent?, letter, count]
      omega
    · simp [exponent?, letter, count]
      omega

theorem exponent?_eq_none (stop : ∀ c ∈ after.head?, c ≠ 'e' ∧ c ≠ 'E') :
    exponent? after = none := by
  cases after with
  | nil => rfl
  | cons c cs =>
    obtain ⟨lower, upper⟩ := stop c rfl
    simp [exponent?, lower, upper]

theorem hex?_eq_none_of_digits (digits : ∀ c ∈ ds, isDigit c = true)
    (stop : ∀ c ∈ after.head?, c ≠ '0' ∧ c ≠ 'x' ∧ c ≠ 'X') : hex? (ds ++ after) = none := by
  cases ds with
  | nil =>
    rw [List.nil_append, hex?.eq_def]
    split
    · exact absurd rfl (stop '0' rfl).1
    · rfl
  | cons d ds =>
    apply hex?_eq_none
    intro c mem
    cases ds with
    | nil => exact (stop c mem).2
    | cons d' ds =>
      obtain rfl : d' = c := by simpa using mem
      have digit : isDigit d' = true := digits d' (by simp)
      constructor <;> (rintro rfl; cases digit)

/-- Where the digits end, only the suffix makes them a number of fixed point. -/
theorem fixed?_of_count {d : Char}
    (count : (mantissa? (n ++ d :: after) <|> digits? (n ++ d :: after)) = some n.length) :
    fixed? (n ++ d :: after) = if d = 'd' || d = 'D' then some (n.length + 1) else none := by
  rw [fixed?, count]
  simp only [Option.bind_eq_bind, Option.bind_some, List.drop_left]

theorem fixed?_eq_none
    (count : (mantissa? (n ++ after) <|> digits? (n ++ after)) = some n.length)
    (stop : ∀ c ∈ after.head?, c ≠ 'd' ∧ c ≠ 'D') : fixed? (n ++ after) = none := by
  cases after with
  | nil =>
    rw [fixed?, count]
    simp
  | cons c cs =>
    obtain ⟨lower, upper⟩ := stop c rfl
    rw [fixed?_of_count count]
    simp [lower, upper]

theorem count_of_mantissa (mantissa : IsMantissa n)
    (stop : ∀ c ∈ after.head?, isDigit c = false) :
    (mantissa? (n ++ after) <|> digits? (n ++ after)) = some n.length := by
  rw [mantissa?_append mantissa stop]
  rfl

theorem count_of_digits (digits : IsDigits ds)
    (stop : ∀ c ∈ after.head?, isDigit c = false ∧ c ≠ '.') :
    (mantissa? (ds ++ after) <|> digits? (ds ++ after)) = some ds.length := by
  rw [mantissa?_eq_none digits.all stop, digits?_append digits fun c mem => (stop c mem).1]
  rfl

/-- An exponent begins with its letter. -/
theorem IsExponent.head (exponent : IsExponent e) :
    ∀ c ∈ (e ++ after).head?, c = 'e' ∨ c = 'E' := by
  cases exponent with
  | power mark _ _ =>
    intro c mem
    obtain rfl := by simpa using mem
    exact mark

/-- In front of its suffix a number of fixed point has digits, and then a point or the suffix. -/
theorem number?_fixed_append {d : Char} (front : IsMantissa n ∨ IsDigits n)
    (mark : d = 'd' ∨ d = 'D') :
    number? (n ++ [d] ++ after) = some (.fixed, (n ++ [d]).length) := by
  have letter : (d = 'd' || d = 'D') = true := by simpa using mark
  have suffix : ∀ c ∈ (d :: after).head?, isDigit c = false ∧ c ≠ '.' := by
    intro c mem
    obtain rfl : d = c := by simpa using mem
    rcases mark with rfl | rfl <;> decide
  have stop : ∀ c ∈ (d :: after).head?, isDigit c = false := fun c mem => (suffix c mem).1
  have count : (mantissa? (n ++ d :: after) <|> digits? (n ++ d :: after)) = some n.length := by
    rcases front with mantissa | digits
    · exact count_of_mantissa mantissa stop
    · exact count_of_digits digits suffix
  have hex : hex? (n ++ d :: after) = none := by
    rcases front with ⟨front, -, -⟩ | digits
    · rw [List.append_assoc]
      apply hex?_eq_none_of_digits front
      intro c mem
      obtain rfl : '.' = c := by simpa using mem
      decide
    · apply hex?_eq_none_of_digits digits.all
      intro c mem
      obtain rfl : d = c := by simpa using mem
      rcases mark with rfl | rfl <;> decide
  have fixed : fixed? (n ++ d :: after) = some (n.length + 1) := by
    rw [fixed?_of_count count, if_pos letter]
  rw [List.append_assoc, List.singleton_append, number?, hex, fixed]
  simp

end

/-! In front of `after` no word goes on. -/

section

variable {ds n e after : List Char} (ends : ∀ c ∈ after.head?, continuesWord c = false)

include ends

/-- No letter follows. -/
theorem ne_of_ends {x : Char} (word : continuesWord x = true) : ∀ c ∈ after.head?, c ≠ x := by
  rintro c mem rfl
  rw [ends c mem] at word
  cases word

theorem isDigit_of_ends : ∀ c ∈ after.head?, isDigit c = false :=
  fun c mem => isDigit_of_continuesWord (ends c mem)

theorem number?_hex_append {x : Char} (mark : x = 'x' ∨ x = 'X') (nonempty : ds ≠ [])
    (digits : ∀ c ∈ ds, isHexDigit c = true) :
    number? ('0' :: x :: ds ++ after) = some (.hex, ('0' :: x :: ds).length) := by
  have count : run isHexDigit (ds ++ after) = ds.length := by
    apply run_append digits
    intro c mem
    rw [Bool.eq_false_iff]
    intro hex
    exact ne_of_ends ends (continuesWord_of_isHexDigit hex) c mem rfl
  have letter : (x = 'x' || x = 'X') = true := by simpa using mark
  have positive : ds.length ≠ 0 := by simpa using nonempty
  have shape : hex? ('0' :: x :: (ds ++ after)) = some (ds.length + 1 + 1) := by
    rw [hex?, if_pos letter, count, some?, if_neg positive, Option.map_some, Nat.add_comm]
  rw [List.cons_append, List.cons_append, number?, shape]
  rfl

/-- A mantissa, perhaps with an exponent behind it. -/
theorem number?_float_append (mantissa : IsMantissa n) (exponent : e = [] ∨ IsExponent e) :
    number? (n ++ e ++ after) = some (.float, (n ++ e).length) := by
  have stop := isDigit_of_ends ends
  -- what follows the mantissa is neither a digit nor the suffix of a number of fixed point
  have behind : ∀ c ∈ (e ++ after).head?, isDigit c = false ∧ c ≠ 'd' ∧ c ≠ 'D' := by
    intro c mem
    rcases exponent with rfl | exponent
    · rw [List.nil_append] at mem
      exact ⟨stop c mem, ne_of_ends ends (by decide) c mem, ne_of_ends ends (by decide) c mem⟩
    · rcases exponent.head c mem with rfl | rfl <;> decide
  have count : mantissa? (n ++ (e ++ after)) = some n.length :=
    mantissa?_append mantissa fun c mem => (behind c mem).1
  have power : (exponent? (e ++ after)).getD 0 = e.length := by
    rcases exponent with rfl | exponent
    · rw [List.nil_append, exponent?_eq_none fun c mem =>
        ⟨ne_of_ends ends (by decide) c mem, ne_of_ends ends (by decide) c mem⟩]
      rfl
    · rw [exponent?_append exponent stop]
      rfl
  have hex : hex? (n ++ (e ++ after)) = none := by
    cases mantissa with
    | point front _ _ =>
      rw [List.append_assoc]
      apply hex?_eq_none_of_digits front
      intro c mem
      obtain rfl : '.' = c := by simpa using mem
      decide
  have fixed : fixed? (n ++ (e ++ after)) = none :=
    fixed?_eq_none (count_of_mantissa mantissa fun c mem => (behind c mem).1)
      fun c mem => (behind c mem).2
  have float : float? (n ++ (e ++ after)) = some (n.length + e.length) := by
    rw [float?, count]
    simp only [List.drop_left, power]
  rw [List.append_assoc, number?, hex, fixed, float]
  simp

/-- Digits with an exponent behind them. -/
theorem number?_scientific_append (digits : IsDigits ds) (exponent : IsExponent e) :
    number? (ds ++ e ++ after) = some (.float, (ds ++ e).length) := by
  have head : ∀ c ∈ (e ++ after).head?, c = 'e' ∨ c = 'E' := exponent.head
  have behind : ∀ c ∈ (e ++ after).head?, isDigit c = false ∧ c ≠ '.' := by
    intro c mem
    rcases head c mem with rfl | rfl <;> decide
  have hex : hex? (ds ++ (e ++ after)) = none := by
    apply hex?_eq_none_of_digits digits.all
    intro c mem
    rcases head c mem with rfl | rfl <;> decide
  have fixed : fixed? (ds ++ (e ++ after)) = none := by
    apply fixed?_eq_none (count_of_digits digits behind)
    intro c mem
    rcases head c mem with rfl | rfl <;> decide
  have float : float? (ds ++ (e ++ after)) = some (ds.length + e.length) := by
    have power := exponent?_append exponent (isDigit_of_ends ends)
    rw [float?, mantissa?_eq_none digits.all behind,
      digits?_append digits fun c mem => (behind c mem).1]
    simp [power]
  rw [List.append_assoc, number?, hex, fixed, float]
  simp

/-- Plain digits without a point behind them are of no other class than octal and decimal. -/
theorem number?_digits_append (digits : IsDigits ds) (point : ∀ c ∈ after.head?, c ≠ '.') :
    number? (ds ++ after) =
      ((octal? (ds ++ after)).map (.octal, ·) <|> some (.decimal, ds.length)) := by
  have stop := isDigit_of_ends ends
  have behind : ∀ c ∈ after.head?, isDigit c = false ∧ c ≠ '.' :=
    fun c mem => ⟨stop c mem, point c mem⟩
  have count := digits?_append digits stop
  have hex : hex? (ds ++ after) = none := by
    apply hex?_eq_none_of_digits digits.all
    intro c mem
    exact ⟨ne_of_ends ends (by decide) c mem, ne_of_ends ends (by decide) c mem,
      ne_of_ends ends (by decide) c mem⟩
  have fixed : fixed? (ds ++ after) = none := by
    apply fixed?_eq_none (count_of_digits digits behind)
    intro c mem
    exact ⟨ne_of_ends ends (by decide) c mem, ne_of_ends ends (by decide) c mem⟩
  have power : exponent? after = none := by
    apply exponent?_eq_none
    intro c mem
    exact ⟨ne_of_ends ends (by decide) c mem, ne_of_ends ends (by decide) c mem⟩
  have float : float? (ds ++ after) = none := by
    rw [float?, mantissa?_eq_none digits.all behind, count]
    simp [power]
  rw [number?, hex, fixed, float, count]
  rfl

end

/-- A number of the grammar is counted as a whole where the next character does not go on with
it. -/
theorem number?_append {kind : LiteralKind} {word after : List Char} (number : IsNumber kind word)
    (ends : ∀ c ∈ after.head?, EndsNumber kind c) :
    number? (word ++ after) = some (kind, word.length) := by
  have stop : ∀ c ∈ after.head?, continuesWord c = false := fun c mem => (ends c mem).1
  cases number with
  | hex mark nonempty digits => exact number?_hex_append stop mark nonempty digits
  | fixed front mark => exact number?_fixed_append front mark
  | float mantissa exponent => exact number?_float_append stop mantissa exponent
  | scientific digits exponent => exact number?_scientific_append stop digits exponent
  | @octal ds digits =>
    have zeros : IsDigits ('0' :: ds) := ⟨by simp, by simpa using ⟨by decide, digits.all⟩⟩
    have point : ∀ c ∈ after.head?, c ≠ '.' := fun c mem => (ends c mem).2 (.inr rfl)
    have count := digits?_append digits (isDigit_of_ends stop)
    rw [number?_digits_append stop zeros point, List.cons_append, octal?, count]
    simp [Nat.add_comm]
  | decimal digits lead =>
    have point : ∀ c ∈ after.head?, c ≠ '.' := fun c mem => (ends c mem).2 (.inl rfl)
    have octal : octal? (word ++ after) = none := by
      rw [octal?.eq_def]
      split
      · next cs eq =>
        -- only a zero alone begins with one
        have rest : cs = after := by
          cases word with
          | nil => exact absurd rfl digits.some
          | cons d es =>
            cases es with
            | nil => simpa using (List.cons.inj eq).2.symm
            | cons d' es =>
              obtain rfl := (List.cons.inj eq).1
              exact absurd rfl (lead d' es)
        rw [rest, digits?, run_stop (isDigit_of_ends stop)]
        rfl
      · rfl
    rw [number?_digits_append stop digits point, octal]
    rfl

/-! What is counted is a number of the grammar. -/

section

variable {cs : List Char} {count : Nat}

theorem exists_of_run (p : Char → Bool) (cs : List Char) :
    ∃ front rest, cs = front ++ rest ∧ front.length = run p cs ∧ (∀ c ∈ front, p c = true) ∧
      ∀ c ∈ rest.head?, p c = false := by
  refine ⟨cs.takeWhile p, cs.dropWhile p, List.takeWhile_append_dropWhile.symm, rfl,
    fun c mem => List.mem_takeWhile_imp mem, fun c mem => ?_⟩
  have stops := List.head?_dropWhile_not p cs
  rw [Option.mem_def.mp mem] at stops
  simpa using stops

theorem exists_of_digits? (found : digits? cs = some count) :
    ∃ ds rest, cs = ds ++ rest ∧ ds.length = count ∧ IsDigits ds ∧
      ∀ c ∈ rest.head?, isDigit c = false := by
  obtain ⟨ds, rest, split, length, all, stop⟩ := exists_of_run isDigit cs
  rw [digits?, ← length, some?] at found
  split at found
  · cases found
  · next positive =>
    cases found
    exact ⟨ds, rest, split, rfl, ⟨by simpa using positive, all⟩, stop⟩

theorem exists_of_mantissa? (found : mantissa? cs = some count) :
    ∃ n rest, cs = n ++ rest ∧ n.length = count ∧ IsMantissa n := by
  obtain ⟨whole, behind, rfl, length, front, -⟩ := exists_of_run isDigit cs
  rw [mantissa?, ← length, List.drop_left] at found
  dsimp only at found
  split at found
  · next tail =>
    obtain ⟨places, rest, rfl, length', back, -⟩ := exists_of_run isDigit tail
    rw [← length'] at found
    split at found
    · cases found
    · next counted =>
      cases found
      refine ⟨whole ++ '.' :: places, rest, by simp, by simp; omega, .point front back ?_⟩
      simpa using counted
  · cases found

theorem exists_of_exponent? (found : exponent? cs = some count) :
    ∃ e rest, cs = e ++ rest ∧ e.length = count ∧ IsExponent e := by
  -- behind the letter and the sign there are digits
  have power {e : Char} (sign : List Char) {tail : List Char} {n : Nat}
      (mark : (e = 'e' || e = 'E') = true) (signed : sign = [] ∨ sign = ['+'] ∨ sign = ['-'])
      (found : (digits? tail).map (1 + sign.length + ·) = some n) :
      ∃ w rest, e :: (sign ++ tail) = w ++ rest ∧ w.length = n ∧ IsExponent w := by
    obtain ⟨m, digits, rfl⟩ := Option.map_eq_some_iff.mp found
    obtain ⟨ds, rest, rfl, rfl, digits, -⟩ := exists_of_digits? digits
    refine ⟨e :: (sign ++ ds), rest, by simp, by simp; omega, .power ?_ signed digits⟩
    simpa using mark
  rw [exponent?.eq_def] at found
  split at found
  · next e tail =>
    split at found
    · next mark =>
      dsimp only at found
      split at found
      · next tail => exact power ['+'] mark (by simp) found
      · next tail => exact power ['-'] mark (by simp) found
      · exact power [] mark (by simp) found
    · cases found
  · cases found

theorem exists_of_hex? (found : hex? cs = some count) :
    ∃ w rest, cs = w ++ rest ∧ w.length = count ∧ IsNumber .hex w := by
  rw [hex?.eq_def] at found
  split at found
  · next x tail =>
    split at found
    · next mark =>
      obtain ⟨m, digits, rfl⟩ := Option.map_eq_some_iff.mp found
      obtain ⟨ds, rest, rfl, length, all, -⟩ := exists_of_run isHexDigit tail
      rw [← length, some?] at digits
      split at digits
      · cases digits
      · next positive =>
        cases digits
        refine ⟨'0' :: x :: ds, rest, rfl, by simp; omega, .hex ?_ ?_ all⟩
        · simpa using mark
        · simpa using positive
    · cases found
  · cases found

theorem exists_of_fixed? (found : fixed? cs = some count) :
    ∃ w rest, cs = w ++ rest ∧ w.length = count ∧ IsNumber .fixed w := by
  obtain ⟨m, counted, found⟩ := Option.bind_eq_some_iff.mp found
  obtain ⟨n, behind, rfl, rfl, number⟩ : ∃ n behind, cs = n ++ behind ∧ n.length = m ∧
      (IsMantissa n ∨ IsDigits n) := by
    rcases Lexer.of_orElse counted with mantissa | digits
    · obtain ⟨n, behind, split, length, mantissa⟩ := exists_of_mantissa? mantissa
      exact ⟨n, behind, split, length, .inl mantissa⟩
    · obtain ⟨ds, behind, split, length, digits, -⟩ := exists_of_digits? digits
      exact ⟨ds, behind, split, length, .inr digits⟩
  rw [List.drop_left] at found
  cases behind with
  | nil => cases found
  | cons d rest =>
    dsimp only at found
    split at found
    · next mark =>
      cases found
      exact ⟨n ++ [d], rest, by simp, by simp, .fixed number (by simpa using mark)⟩
    · cases found

theorem exists_of_float? (found : float? cs = some count) :
    ∃ w rest, cs = w ++ rest ∧ w.length = count ∧ IsNumber .float w := by
  rw [float?] at found
  split at found
  · next m counted =>
    cases found
    obtain ⟨n, behind, rfl, rfl, mantissa⟩ := exists_of_mantissa? counted
    rw [List.drop_left]
    cases power : exponent? behind with
    | none => exact ⟨n ++ [], behind, by simp, by simp, .float mantissa (.inl rfl)⟩
    | some k =>
      obtain ⟨e, rest, rfl, rfl, exponent⟩ := exists_of_exponent? power
      exact ⟨n ++ e, rest, by simp, by simp, .float mantissa (.inr exponent)⟩
  · obtain ⟨m, counted, found⟩ := Option.bind_eq_some_iff.mp found
    obtain ⟨ds, behind, rfl, rfl, digits, -⟩ := exists_of_digits? counted
    rw [List.drop_left] at found
    obtain ⟨k, power, rfl⟩ := Option.map_eq_some_iff.mp found
    obtain ⟨e, rest, rfl, rfl, exponent⟩ := exists_of_exponent? power
    exact ⟨ds ++ e, rest, by simp, by simp, .scientific digits exponent⟩

/-- Behind digits that are neither of fixed nor of floating point there is no point. -/
theorem ne_point_of_float? {ds rest : List Char} (digits : IsDigits ds)
    (missing : float? (ds ++ rest) = none) : ∀ c ∈ rest.head?, c ≠ '.' := by
  rintro c mem rfl
  obtain ⟨tail, rfl⟩ := List.head?_eq_some_iff.mp mem
  obtain ⟨places, behind, rfl, -, back, stop⟩ := exists_of_run isDigit tail
  have mantissa : IsMantissa (ds ++ '.' :: places) :=
    .point digits.all back fun none => digits.some none.1
  have count := mantissa?_append mantissa stop
  rw [List.append_assoc, List.cons_append] at count
  rw [float?, count] at missing
  cases missing

theorem exists_of_octal? (found : octal? cs = some count) (missing : float? cs = none) :
    ∃ w rest, cs = w ++ rest ∧ w.length = count ∧ IsNumber .octal w ∧
      ∀ c ∈ rest.head?, c ≠ '.' := by
  rw [octal?.eq_def] at found
  split at found
  · next tail =>
    obtain ⟨m, digits, rfl⟩ := Option.map_eq_some_iff.mp found
    obtain ⟨ds, rest, rfl, rfl, digits, -⟩ := exists_of_digits? digits
    have zeros : IsDigits ('0' :: ds) := ⟨by simp, by simpa using ⟨by decide, digits.all⟩⟩
    exact ⟨'0' :: ds, rest, rfl, Nat.add_comm _ _, .octal digits,
      ne_point_of_float? zeros missing⟩
  · cases found

theorem exists_of_decimal? (found : digits? cs = some count) (missing : float? cs = none)
    (noOctal : octal? cs = none) :
    ∃ w rest, cs = w ++ rest ∧ w.length = count ∧ IsNumber .decimal w ∧
      ∀ c ∈ rest.head?, c ≠ '.' := by
  obtain ⟨ds, rest, rfl, rfl, digits, stop⟩ := exists_of_digits? found
  refine ⟨ds, rest, rfl, rfl, .decimal digits ?_, ne_point_of_float? digits missing⟩
  rintro d es rfl
  -- behind a zero there are digits of an octal number
  have tail : IsDigits (d :: es) :=
    ⟨List.cons_ne_nil _ _, fun c mem => digits.all c (List.mem_cons_of_mem _ mem)⟩
  rw [List.cons_append, octal?, digits?_append tail stop] at noOctal
  cases noOctal

end

/-- What is counted as a number is one of the grammar. A point that follows it would be of it, unless
it has one or ends in an exponent or a suffix. -/
theorem exists_of_number? {cs : List Char} {kind : LiteralKind} {count : Nat}
    (found : number? cs = some (kind, count)) :
    ∃ w rest, cs = w ++ rest ∧ w.length = count ∧ IsNumber kind w ∧
      (kind = .decimal ∨ kind = .octal → ∀ c ∈ rest.head?, c ≠ '.') := by
  have counted {shape : Option Nat} {k : LiteralKind}
      (found : shape.map (k, ·) = some (kind, count)) : shape = some count ∧ k = kind := by
    obtain ⟨m, eq, pair⟩ := Option.map_eq_some_iff.mp found
    cases pair
    exact ⟨eq, rfl⟩
  rw [number?] at found
  simp only [Option.orElse_eq_some, Option.map_eq_none_iff] at found
  rcases found with hex | ⟨-, fixed | ⟨-, float | ⟨missing, octal | ⟨noOctal, decimal⟩⟩⟩⟩
  · obtain ⟨shape, rfl⟩ := counted hex
    obtain ⟨w, rest, split, length, number⟩ := exists_of_hex? shape
    exact ⟨w, rest, split, length, number, by simp⟩
  · obtain ⟨shape, rfl⟩ := counted fixed
    obtain ⟨w, rest, split, length, number⟩ := exists_of_fixed? shape
    exact ⟨w, rest, split, length, number, by simp⟩
  · obtain ⟨shape, rfl⟩ := counted float
    obtain ⟨w, rest, split, length, number⟩ := exists_of_float? shape
    exact ⟨w, rest, split, length, number, by simp⟩
  · obtain ⟨shape, rfl⟩ := counted octal
    obtain ⟨w, rest, split, length, number, point⟩ := exists_of_octal? shape missing
    exact ⟨w, rest, split, length, number, fun _ => point⟩
  · obtain ⟨shape, rfl⟩ := counted decimal
    obtain ⟨w, rest, split, length, number, point⟩ := exists_of_decimal? shape missing noOctal
    exact ⟨w, rest, split, length, number, fun _ => point⟩

end Idl.Shape
