import Idl.Proofs.Token.Scanned

/-!
What the lexer makes of quoted text. Every text is one literal between its quotes, and a character
is read back as it was. A string is read back as it was but for zero characters: one is written as
an octal escape, which takes up to two octal digits behind it for the rest of its code. Main
statements: `tokenize_quoted` and `readBack_eq_self_iff`.
-/

set_option autoImplicit false

namespace Idl

/-- What a quoted text is read back as. -/
def readBack : List Char → List Char
  | [] => []
  | c :: cs =>
    if c = '\x00' then
      let digits := Lexeme.digitRun 8 2 cs
      Char.ofNat (Lexeme.ofDigits 8 digits) :: readBack (cs.drop digits.length)
    else c :: readBack cs
termination_by cs => cs.length
decreasing_by
  all_goals simp only [List.length_drop, List.length_cons]; omega

section

variable {quote c : Char} {cs more : List Char}

/-! Octal digits. -/

theorem digit?_of_letterEscape {l : Char} (value : Lexeme.letterEscape? l = some c) :
    Lexeme.digit? 8 c = none := by
  rw [Lexeme.letterEscape?.eq_def] at value
  split at value <;> cases value <;> rfl

/-- An octal digit stands by itself in a literal. -/
theorem escape_of_digit (valid : IsQuote quote) {v : Nat} (digit : Lexeme.digit? 8 c = some v) :
    Text.escape quote c = [c] := by
  have escapes := escapes_escape valid c
  generalize Text.escape quote c = shown at escapes ⊢
  cases escapes with
  | plain => rfl
  | letter _ value => cases digit.symm.trans (digit?_of_letterEscape value)
  | nul zero =>
    rw [zero] at digit
    cases digit

theorem digitRun_eq_nil_iff (count : Nat) :
    Lexeme.digitRun 8 (count + 1) cs = [] ↔ ∀ d ∈ cs.head?, Lexeme.digit? 8 d = none := by
  cases cs with
  | nil => simp [Lexeme.digitRun]
  | cons d ds => cases digit : Lexeme.digit? 8 d <;> simp [Lexeme.digitRun, digit]

/-- The digits at the front of a text are those at the front of what stands for it. -/
theorem digitRun_escaped (valid : IsQuote quote) (count : Nat) (text : List Char) :
    Lexeme.digitRun 8 count (text.flatMap (Text.escape quote)) = Lexeme.digitRun 8 count text ∧
      (text.flatMap (Text.escape quote)).drop (Lexeme.digitRun 8 count text).length =
        (text.drop (Lexeme.digitRun 8 count text).length).flatMap (Text.escape quote) := by
  induction count generalizing text with
  | zero => simp [Lexeme.digitRun]
  | succ count ih =>
    cases text with
    | nil => simp [Lexeme.digitRun]
    | cons c text =>
      cases digit : Lexeme.digit? 8 c with
      | some v =>
        obtain ⟨digits, rest⟩ := ih text
        simp [escape_of_digit valid digit, Lexeme.digitRun, digit, digits, rest]
      | none =>
        have other : ∀ d ∈ ((c :: text).flatMap (Text.escape quote)).head?,
            Lexeme.digit? 8 d = none := by
          intro d mem
          rw [List.flatMap_cons] at mem
          obtain rfl | rfl := (escapes_escape valid c).front _ d mem
          · exact digit
          · rfl
        rw [(digitRun_eq_nil_iff count).mpr other, Lexeme.digitRun, digit]
        simp

theorem lt_of_digit? {base v : Nat} (read : Lexeme.digit? base c = some v) : v < base := by
  rw [Lexeme.digit?, Option.filter_eq_some_iff] at read
  simpa using read.2

/-- Two octal digits are a code. -/
theorem ofDigits_digitRun_lt (text : List Char) :
    Lexeme.ofDigits 8 (Lexeme.digitRun 8 2 text) < 64 := by
  cases text with
  | nil => decide
  | cons c cs =>
    rw [Lexeme.digitRun]
    split
    · next v first =>
      have high := lt_of_digit? first
      cases cs with
      | nil =>
        simp only [Lexeme.digitRun, Lexeme.ofDigits, List.foldl_cons, List.foldl_nil]
        omega
      | cons d ds =>
        rw [Lexeme.digitRun]
        split
        · next w second =>
          have low := lt_of_digit? second
          simp only [Lexeme.digitRun, Lexeme.ofDigits, List.foldl_cons, List.foldl_nil]
          omega
        · simp only [Lexeme.ofDigits, List.foldl_cons, List.foldl_nil]
          omega
    · decide

/-! The text of a literal. -/

theorem unescape_nul (more : List Char) :
    Lexeme.unescape ('\\' :: '0' :: more) =
      (Lexeme.unescape (more.drop (Lexeme.digitRun 8 2 more).length)).map
        (Char.ofNat (Lexeme.ofDigits 8 (Lexeme.digitRun 8 2 more)) :: ·) := by
  have small := ofDigits_digitRun_lt more
  have valid : (Lexeme.ofDigits 8 (Lexeme.digitRun 8 2 more)).isValidChar := .inl (by omega)
  have read : Lexeme.escaped '0' more =
      .ok (Char.ofNat (Lexeme.ofDigits 8 (Lexeme.digitRun 8 2 more)),
        (Lexeme.digitRun 8 2 more).length) := by
    have code : Lexeme.ofCode (Lexeme.ofDigits 8 (Lexeme.digitRun 8 2 more)) =
        .ok (Char.ofNat (Lexeme.ofDigits 8 (Lexeme.digitRun 8 2 more))) := if_pos valid
    have front : Lexeme.ofDigits 8 (0 :: Lexeme.digitRun 8 2 more) =
        Lexeme.ofDigits 8 (Lexeme.digitRun 8 2 more) := rfl
    show (Lexeme.ofCode (Lexeme.ofDigits 8 (0 :: Lexeme.digitRun 8 2 more))).map
      (·, (Lexeme.digitRun 8 2 more).length) = _
    rw [front, code]
    rfl
  rw [Lexeme.unescape, read]
  show (do return _ :: (← Lexeme.unescape (more.drop _))) = _
  cases Lexeme.unescape (more.drop (Lexeme.digitRun 8 2 more).length) <;> rfl

/-- The text between the quotes is read back. -/
theorem unescape_quoted (valid : IsQuote quote) (text : List Char) :
    Lexeme.unescape (text.flatMap (Text.escape quote)) = .ok (readBack text) := by
  fun_induction readBack text with
  | case1 => rw [List.flatMap_nil, Lexeme.unescape]
  | case2 cs digits ih =>
    obtain ⟨same, rest⟩ := digitRun_escaped valid 2 cs
    have zero : Text.escape quote '\x00' = ['\\', '0'] := rfl
    rw [List.flatMap_cons, zero, List.cons_append, List.singleton_append, unescape_nul, same, rest,
      ih]
    rfl
  | case3 c cs other ih =>
    rw [List.flatMap_cons,
      unescape_escapes (escapes_escape valid c) _ fun zero => absurd zero other, ih]
    rfl

/-! Where a text is read back as it was. -/

theorem length_readBack_le (text : List Char) : (readBack text).length ≤ text.length := by
  fun_induction readBack text with
  | case1 => exact Nat.le_refl _
  | case2 cs digits ih =>
    rw [List.length_drop] at ih
    simp only [List.length_cons]
    omega
  | case3 c cs other ih => exact Nat.succ_le_succ ih

theorem digit?_eight_eq_none_iff {d : Char} :
    Lexeme.digit? 8 d = none ↔ ¬ ('0' ≤ d ∧ d ≤ '7') := by
  refine ⟨fun none octal => ?_, digit?_eight⟩
  have high : d ≤ '9' := Char.le_trans octal.2 (by decide)
  have small : d.toNat - '0'.toNat < 8 := by
    have last : d.toNat ≤ '7'.toNat := UInt32.le_iff_toNat_le.mp octal.2
    have zero : '0'.toNat = 48 := rfl
    have seven : '7'.toNat = 55 := rfl
    omega
  rw [Lexeme.digit?, if_pos ⟨octal.1, high⟩, Option.filter_some, if_pos (decide_eq_true small)]
    at none
  cases none

theorem nulsApart_cons {text : List Char} : NulsApart (c :: text) ↔
    (c = '\x00' → ∀ d ∈ text.head?, Lexeme.digit? 8 d = none) ∧ NulsApart text := by
  constructor
  · refine fun apart => ⟨?_, apart.tail⟩
    rintro rfl d head
    obtain ⟨rest, rfl⟩ := List.head?_eq_some_iff.mp head
    exact digit?_eight_eq_none_iff.mpr fun ⟨low, high⟩ => apart d low high ⟨[], rest, rfl⟩
  · rintro ⟨first, apart⟩ d low high found
    rcases List.infix_cons_iff.mp found with front | inside
    · obtain ⟨rfl, rest, rfl⟩ := List.cons_prefix_cons.mp front
      exact digit?_eight_eq_none_iff.mp (first rfl d rfl) ⟨low, high⟩
    · exact apart d low high inside

/-- A string is read back as it was just if no zero character stands in front of an octal digit. -/
theorem readBack_eq_self_iff (text : List Char) : readBack text = text ↔ NulsApart text := by
  fun_induction readBack text with
  | case1 => simp [NulsApart]
  | case2 cs digits ih =>
    rw [nulsApart_cons]
    constructor
    · intro same
      obtain ⟨-, rest⟩ := List.cons_eq_cons.mp same
      -- what is read back of the rest is too short if there are digits
      have short := length_readBack_le (cs.drop digits.length)
      rw [rest, List.length_drop] at short
      have none : digits = [] := by
        rcases Nat.eq_zero_or_pos cs.length with empty | _
        · show Lexeme.digitRun 8 2 cs = []
          rw [List.length_eq_zero_iff.mp empty]
          rfl
        · exact List.length_eq_zero_iff.mp (by omega)
      rw [none, List.length_nil, List.drop_zero] at ih rest
      exact ⟨fun _ => (digitRun_eq_nil_iff 1).mp none, ih.mp rest⟩
    · rintro ⟨first, apart⟩
      have none : digits = [] := (digitRun_eq_nil_iff 1).mpr (first rfl)
      rw [none, List.length_nil, List.drop_zero] at ih ⊢
      rw [ih.mpr apart]
      rfl
  | case3 c cs other ih =>
    rw [nulsApart_cons, List.cons_inj_right, ih]
    exact ⟨fun apart => ⟨fun zero => absurd zero other, apart⟩, And.right⟩

end

/-! The tokens of quoted text. -/

theorem string_quotedText (wide : Bool) (s : List Char) :
    Lexeme.string (quotedText wide '"' s) = .ok (readBack s) := by
  obtain ⟨narrow, marked⟩ := stripQuotes_quoteLiteral (.inl rfl) s
  have read := unescape_quoted (.inl rfl) s
  cases wide
  · exact (congrArg Lexeme.unescape narrow).trans read
  · exact (congrArg Lexeme.unescape marked).trans read

theorem char_quotedText (wide : Bool) (c : Char) :
    Lexeme.char (quotedText wide '\'' [c]) = .ok c := by
  obtain ⟨narrow, marked⟩ := char_quoteLiteral c
  cases wide
  · exact narrow
  · exact marked

/-- The literal of a text that has the value is one token without a fault, and the end. -/
theorem tokenize_of_value {α : Type} {decode : List Char → Except LiteralFault α} {a : α}
    {quote : Char} (valid : IsQuote quote) {wide : Bool} {s : List Char}
    (reason : ∀ lexeme, Lexeme.fault? (quotedKind wide quote) lexeme =
      Lexeme.fault?.reason (decode lexeme))
    (value : decode (quotedText wide quote s) = .ok a) :
    let text := String.ofList (quotedText wide quote s)
    tokenize text = ⟨[⟨.literal (quotedKind wide quote), text, Place.start.spanOf text.toList⟩,
      endToken text.toList], []⟩ ∧ decode text.toList = .ok a := by
  intro text
  have fine : Lexeme.fault? (quotedKind wide quote) (quotedText wide quote s) = none := by
    rw [reason, value]
    rfl
  exact ⟨tokenize_of_scanned (Scanned.quoted valid fine), by rw [String.toList_ofList, value]⟩

/-- A quoted string is one token without a fault, and its value is the text that is read back, which
is the string itself just if no zero character stands in front of an octal digit. A quoted character
is one token as well, and its value is the character. -/
theorem tokenize_quoted (wide : Bool) :
    (∀ s : List Char,
      let text := String.ofList (quotedText wide '"' s)
      (tokenize text = ⟨[⟨.literal (quotedKind wide '"'), text, Place.start.spanOf text.toList⟩,
        endToken text.toList], []⟩ ∧ Lexeme.string text.toList = .ok (readBack s)) ∧
      (readBack s = s ↔ NulsApart s)) ∧
    ∀ c : Char,
      let text := String.ofList (quotedText wide '\'' [c])
      tokenize text = ⟨[⟨.literal (quotedKind wide '\''), text, Place.start.spanOf text.toList⟩,
        endToken text.toList], []⟩ ∧ Lexeme.char text.toList = .ok c := by
  constructor
  · refine fun s => ⟨tokenize_of_value (.inl rfl) ?_ (string_quotedText wide s),
      readBack_eq_self_iff s⟩
    cases wide <;> exact fun _ => rfl
  · refine fun c => tokenize_of_value (.inr rfl) ?_ (char_quotedText wide c)
    cases wide <;> exact fun _ => rfl

/-- A zero character in front of a digit is not read back: the two become one character. -/
theorem string_quotedText_nul :
    Lexeme.string (quotedText false '"' ['\x00', '1']) = .ok ['\x01'] ∧
      Lexeme.string (quotedText false '"' ['\x00', '1']) ≠ .ok ['\x00', '1'] := by
  rw [string_quotedText]
  decide +kernel

end Idl
