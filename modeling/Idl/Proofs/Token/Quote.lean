import Idl.Syntax.Printer.Type
import Idl.Token.Shape

/-!
Quoted text, and how a literal gives it back. Main statements: `closing?_append`,
`string_quoteLiteral` and `char_quoteLiteral`.
-/

set_option autoImplicit false

namespace Idl

/-- The character stands around literals. -/
def IsQuote (quote : Char) : Prop := quote = '"' ∨ quote = '\''

/-- No digit of an octal number stands directly behind a zero character: together they would be read
as one escape. -/
def NulsApart (text : List Char) : Prop :=
  ∀ d, '0' ≤ d → d ≤ '7' → ¬ ['\x00', d] <:+: text

theorem NulsApart.tail {c : Char} {text : List Char} (apart : NulsApart (c :: text)) :
    NulsApart text :=
  fun d low high found => apart d low high (List.infix_cons found)

/-- How a character can stand in a literal: by itself, behind a backslash, or by its code. -/
inductive Escapes (quote c : Char) : List Char → Prop
  | plain (line : c ≠ '\n') (slash : c ≠ '\\') (other : c ≠ quote) : Escapes quote c [c]
  | letter {l : Char} (line : l ≠ '\n') (value : Lexeme.letterEscape? l = some c) :
    Escapes quote c ['\\', l]
  | nul (zero : c = '\x00') : Escapes quote c ['\\', '0']

section

variable {quote c : Char} {cs : List Char}

theorem escapes_escape (valid : IsQuote quote) (c : Char) :
    Escapes quote c (Text.escape quote c) := by
  rw [Text.escape]
  split
  · next same => exact .letter (by decide) (by rw [same]; rfl)
  split
  · next same => exact .letter (by decide) (by rw [same]; rfl)
  split
  · next same => exact .letter (by decide) (by rw [same]; rfl)
  split
  · next same => exact .nul same
  split
  · next same => exact .letter (by decide) (by rw [same]; rfl)
  split
  · next same =>
    obtain rfl | rfl := valid
    · exact .letter (by decide) (by rw [same]; rfl)
    · exact .letter (by decide) (by rw [same]; rfl)
  · next line _ _ _ slash other => exact .plain line slash other

/-- What stands for a character begins with it or with a backslash. -/
theorem Escapes.front (escapes : Escapes quote c cs) (more : List Char) :
    ∀ d ∈ (cs ++ more).head?, d = c ∨ d = '\\' := by
  cases escapes with
  | plain => simp
  | letter => simp
  | nul => simp

/-! Where a literal ends. -/

/-- Up to and with the quote that closes a literal, on one line. Behind a backslash a quote closes
nothing. -/
inductive Closes (quote : Char) : List Char → Prop
  | last : Closes quote [quote]
  | escaped {c : Char} {cs : List Char} (line : c ≠ '\n') (rest : Closes quote cs) :
    Closes quote ('\\' :: c :: cs)
  | plain {c : Char} {cs : List Char} (line : c ≠ '\n') (other : c ≠ quote) (slash : c ≠ '\\')
      (rest : Closes quote cs) : Closes quote (c :: cs)

/-- A literal ends where it is closed, whatever follows. -/
theorem closing?_append (valid : IsQuote quote) (closes : Closes quote cs) (after : List Char) :
    Shape.closing? quote (cs ++ after) = some cs.length := by
  have line : quote ≠ '\n' := by
    obtain rfl | rfl := valid <;> decide
  have slash : '\\' ≠ quote := by
    obtain rfl | rfl := valid <;> decide
  induction closes with
  | last => simp [Shape.closing?.eq_def, line]
  | escaped line _ ih =>
    simp [Shape.closing?, slash, line, ih]
    omega
  | plain line other noSlash _ ih =>
    rw [List.cons_append, Shape.closing?.eq_def]
    simp [line, noSlash, other, ih]
    omega

/-- What is counted of a literal closes it. -/
theorem exists_of_closing? {count : Nat} (found : Shape.closing? quote cs = some count) :
    ∃ body rest, cs = body ++ rest ∧ body.length = count ∧ Closes quote body := by
  fun_induction Shape.closing? quote cs generalizing count with
  | case1 => cases found
  | case2 => cases found
  | case3 cs line =>
    cases found
    exact ⟨[quote], cs, rfl, rfl, .last⟩
  | case4 => cases found
  | case5 => cases found
  | case6 d ds line first other ih =>
    obtain ⟨n, inside, rfl⟩ := Option.map_eq_some_iff.mp found
    obtain ⟨body, rest, rfl, rfl, closes⟩ := ih inside
    exact ⟨'\\' :: d :: body, rest, rfl, by simp; omega, .escaped line closes⟩
  | case7 d ds line other slash ih =>
    obtain ⟨n, inside, rfl⟩ := Option.map_eq_some_iff.mp found
    obtain ⟨body, rest, rfl, rfl, closes⟩ := ih inside
    exact ⟨d :: body, rest, rfl, by simp; omega, .plain line other slash closes⟩

theorem Closes.escapes (escapes : Escapes quote c cs) {more : List Char}
    (rest : Closes quote more) : Closes quote (cs ++ more) := by
  cases escapes with
  | plain line slash other => exact .plain line other slash rest
  | letter line _ => exact .escaped line rest
  | nul _ => exact .escaped (by decide) rest

/-- A quoted text is closed by its quote. -/
theorem closes_body (valid : IsQuote quote) (text : List Char) :
    Closes quote (text.flatMap (Text.escape quote) ++ [quote]) := by
  induction text with
  | nil => exact .last
  | cons c text ih =>
    rw [List.flatMap_cons, List.append_assoc]
    exact ih.escapes (escapes_escape valid c)

/-! What stands in a literal. -/

theorem digit?_eight {d : Char} (other : ¬ ('0' ≤ d ∧ d ≤ '7')) : Lexeme.digit? 8 d = none := by
  rw [Option.eq_none_iff_forall_ne_some]
  intro v read
  rw [Lexeme.digit?, Option.filter_eq_some_iff] at read
  obtain ⟨found, small⟩ := read
  have small : v < 8 := by simpa using small
  split at found
  · next digit =>
    refine other ⟨digit.1, ?_⟩
    have value : d.toNat - '0'.toNat = v := Option.some.inj found
    have zero : '0'.toNat = 48 := rfl
    have seven : '7'.toNat = 55 := rfl
    rw [Char.le_def, UInt32.le_iff_toNat_le]
    change d.toNat ≤ '7'.toNat
    omega
  split at found
  · have value : d.toNat - 'a'.toNat + 10 = v := Option.some.inj found
    omega
  split at found
  · have value : d.toNat - 'A'.toNat + 10 = v := Option.some.inj found
    omega
  · cases found

theorem unescape_escapes (escapes : Escapes quote c cs) (more : List Char)
    (apart : c = '\x00' → ∀ d ∈ more.head?, Lexeme.digit? 8 d = none) :
    Lexeme.unescape (cs ++ more) = (Lexeme.unescape more).map (c :: ·) := by
  have finish : (do return c :: (← Lexeme.unescape more)) =
      (Lexeme.unescape more).map (c :: ·) := by
    cases Lexeme.unescape more <;> rfl
  cases escapes with
  | plain _ slash _ =>
    rw [List.singleton_append, Lexeme.unescape]
    · exact finish
    · exact fun same _ => slash same
    · exact fun _ _ same _ => slash same
  | @letter l _ value =>
    have read : Lexeme.escaped l more = .ok (c, 0) := by rw [Lexeme.escaped, value]
    rw [List.cons_append, List.singleton_append, Lexeme.unescape, read]
    exact finish
  | nul zero =>
    have none : Lexeme.digitRun 8 2 more = [] := by
      cases more with
      | nil => rfl
      | cons d ds =>
        have other := apart zero d rfl
        simp [Lexeme.digitRun, other]
    have read : Lexeme.escaped '0' more = .ok (c, 0) := by
      rw [Lexeme.escaped, none, zero]
      rfl
    rw [List.cons_append, List.singleton_append, Lexeme.unescape, read]
    exact finish

/-- The escapes of a text are replaced by what they stand for. -/
theorem unescape_body (valid : IsQuote quote) {text : List Char} (apart : NulsApart text) :
    Lexeme.unescape (text.flatMap (Text.escape quote)) = .ok text := by
  induction text with
  | nil => rw [List.flatMap_nil, Lexeme.unescape]
  | cons c text ih =>
    have octal : c = '\x00' → ∀ d ∈ (text.flatMap (Text.escape quote)).head?,
        Lexeme.digit? 8 d = none := by
      rintro rfl d mem
      cases text with
      | nil => cases mem
      | cons e text =>
        refine digit?_eight ?_
        rintro ⟨low, high⟩
        rw [List.flatMap_cons] at mem
        obtain rfl | rfl := (escapes_escape valid e).front _ d mem
        · exact apart d low high ⟨[], text, rfl⟩
        · exact absurd high (by decide)
    rw [List.flatMap_cons, unescape_escapes (escapes_escape valid c) _ octal, ih apart.tail]
    rfl

/-! Quotes. -/

/-- The quotes go, and the wide mark with them. -/
theorem stripQuotes_quoteLiteral (valid : IsQuote quote) (text : List Char) :
    Lexeme.stripQuotes quote (Text.quoteLiteral quote text) = text.flatMap (Text.escape quote) ∧
      Lexeme.stripQuotes quote ('L' :: Text.quoteLiteral quote text) =
        text.flatMap (Text.escape quote) := by
  have narrow : quote ≠ 'L' := by
    obtain rfl | rfl := valid <;> decide
  constructor
  · simp [Lexeme.stripQuotes, Text.quoteLiteral, narrow]
  · simp [Lexeme.stripQuotes, Text.quoteLiteral]

/-- A string literal has the text that it was written for. -/
theorem string_quoteLiteral {text : List Char} (apart : NulsApart text) :
    Lexeme.string (Text.quoteLiteral '"' text) = .ok text ∧
      Lexeme.string ('L' :: Text.quoteLiteral '"' text) = .ok text := by
  obtain ⟨narrow, wide⟩ := stripQuotes_quoteLiteral (.inl rfl) text
  have read := unescape_body (.inl rfl) apart
  rw [Lexeme.string, Lexeme.string, narrow, wide]
  exact ⟨read, read⟩

theorem NulsApart.single (c : Char) : NulsApart [c] := by
  intro d _ _ found
  have shorter := found.length_le
  simp at shorter

/-- A character literal has the character that it was written for. -/
theorem char_quoteLiteral (c : Char) :
    Lexeme.char (Text.quoteLiteral '\'' [c]) = .ok c ∧
      Lexeme.char ('L' :: Text.quoteLiteral '\'' [c]) = .ok c := by
  obtain ⟨narrow, wide⟩ := stripQuotes_quoteLiteral (.inr rfl) [c]
  have read := unescape_body (.inr rfl) (.single c)
  rw [Lexeme.char, Lexeme.char, narrow, wide, read]
  exact ⟨rfl, rfl⟩

end

end Idl
