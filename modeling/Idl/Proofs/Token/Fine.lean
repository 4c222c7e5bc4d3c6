import Idl.Token.Lexer
import Mathlib.Data.List.TakeWhile

/-!
The tokens of a text. Words and numbers are of the shape that their kind calls for, and each token
begins behind the one before it. Main statements: `fine_tokenize` and `increasing_tokenize`.
-/

set_option autoImplicit false

namespace Idl

/-- The text is a letter or underscore, followed by letters, digits and underscores. -/
def IsWord (word : String) : Prop :=
  ∃ c cs, word.toList = c :: cs ∧ Shape.startsWord c = true ∧
    ∀ d ∈ cs, Shape.continuesWord d = true

/-- The text can stand as an identifier. -/
structure IsIdent (word : String) : Prop where
  shape : IsWord word
  free : Keyword.ofText? word = none

/-- The text begins with a digit or a point. -/
def IsNumeral (lexeme : String) : Prop :=
  ∃ c cs, lexeme.toList = c :: cs ∧ (Shape.isDigit c = true ∨ c = '.')

/-- The lexeme of a token is what its kind calls for. -/
def Token.Fine (t : Token) : Prop :=
  match t.kind with
  | .ident => IsIdent t.lexeme
  | .keyword word => t.lexeme = word.text
  | .literal .float => IsNumeral t.lexeme
  | .literal .fixed => IsNumeral t.lexeme
  | _ => True

namespace Lexer

/-! Shapes. -/

theorem take_run (p : Char → Bool) (cs : List Char) :
    cs.take (Shape.run p cs) = cs.takeWhile p := by
  rw [Shape.run]
  exact (List.prefix_iff_eq_take.mp (List.takeWhile_prefix p)).symm

theorem run_eq_zero {p : Char → Bool} {c : Char} (cs : List Char) (other : p c = false) :
    Shape.run p (c :: cs) = 0 := by
  rw [Shape.run, List.takeWhile_cons, other]
  rfl

/-- A number begins with a digit or a point. -/
theorem digit_of_number? {c : Char} {cs : List Char} {kind : LiteralKind} {count : Nat}
    (number : Shape.number? (c :: cs) = some (kind, count)) :
    Shape.isDigit c = true ∨ c = '.' := by
  by_contra other
  obtain ⟨noDigit, noPoint⟩ := not_or.mp other
  rw [Bool.not_eq_true] at noDigit
  have run : Shape.run Shape.isDigit (c :: cs) = 0 := run_eq_zero cs noDigit
  have digits : Shape.digits? (c :: cs) = none := by rw [Shape.digits?, run]; rfl
  have mantissa : Shape.mantissa? (c :: cs) = none := by
    simp only [Shape.mantissa?, run, List.drop_zero]
    split
    · next eq => exact absurd (List.cons.inj eq).1 noPoint
    · rfl
  have zero : c ≠ '0' := by rintro rfl; cases noDigit
  have hex : Shape.hex? (c :: cs) = none := by
    rw [Shape.hex?]
    rintro x ds eq
    exact zero (List.cons.inj eq).1
  have octal : Shape.octal? (c :: cs) = none := by
    rw [Shape.octal?]
    rintro ds eq
    exact zero (List.cons.inj eq).1
  have fixed : Shape.fixed? (c :: cs) = none := by rw [Shape.fixed?, mantissa, digits]; rfl
  have float : Shape.float? (c :: cs) = none := by rw [Shape.float?, mantissa, digits]; rfl
  rw [Shape.number?, hex, fixed, float, octal, digits] at number
  cases number

/-! Single tokens. -/

/-- A literal that is a number is fine if its text begins as one. -/
theorem fine_literal {kind : LiteralKind} {noun : String} {count : Nat} {text : List Char}
    {found : TokenKind} {more : Nat} {fault : Option LexFault}
    (piece : literal kind noun count text = .token found more fault) {lexeme : String} {span : Span}
    (numeral : kind = .float ∨ kind = .fixed → IsNumeral lexeme) :
    Token.Fine ⟨found, lexeme, span⟩ := by
  rw [literal] at piece
  split at piece
  · cases piece
    cases kind with
    | float => exact numeral (.inl rfl)
    | fixed => exact numeral (.inr rfl)
    | _ => trivial
  · cases piece
    trivial

theorem fine_quoted {wide : Bool} {quote : Char} {text : List Char} {found : TokenKind} {more : Nat}
    {fault : Option LexFault} (piece : quoted wide quote text = .token found more fault)
    (lexeme : String) (span : Span) : Token.Fine ⟨found, lexeme, span⟩ := by
  rw [quoted] at piece
  split at piece
  · cases piece
    trivial
  · split at piece
    · exact fine_literal piece (by cases wide <;> simp)
    · exact fine_literal piece (by cases wide <;> simp)

theorem fine_word {c : Char} {cs : List Char} {count : Nat}
    (shape : Shape.ident? (c :: cs) = some count) (span : Span) :
    Token.Fine ⟨match Keyword.ofText? (String.ofList ((c :: cs).take count)) with
      | some word => .keyword word
      | none => .ident, String.ofList (c :: cs.take (count - 1)), span⟩ := by
  rw [Shape.ident?] at shape
  split at shape
  · next starts =>
    cases shape
    have text : (c :: cs).take (1 + Shape.run Shape.continuesWord cs) =
        c :: cs.takeWhile Shape.continuesWord := by
      rw [Nat.add_comm, List.take_succ_cons, take_run]
    rw [text, Nat.add_sub_cancel_left, take_run]
    cases word : Keyword.ofText? (String.ofList (c :: cs.takeWhile Shape.continuesWord)) with
    | some k => exact (Keyword.text_of_ofText? word).symm
    | none =>
      refine ⟨⟨c, cs.takeWhile Shape.continuesWord, by simp, starts, fun d mem => ?_⟩, word⟩
      exact List.mem_takeWhile_imp mem
  · cases shape

theorem fine_number {c : Char} {cs : List Char} {kind : LiteralKind} {count : Nat}
    (shape : Shape.number? (c :: cs) = some (kind, count)) {found : TokenKind} {more : Nat}
    {fault : Option LexFault} (piece : number kind count (c :: cs) = .token found more fault)
    (span : Span) : Token.Fine ⟨found, String.ofList (c :: cs.take more), span⟩ := by
  rw [number] at piece
  dsimp only at piece
  split at piece
  · exact fine_literal piece fun _ => ⟨c, cs.take more, by simp, digit_of_number? shape⟩
  · cases piece
    trivial

theorem fine_token {c : Char} {cs : List Char} {kind : TokenKind} {more : Nat}
    {fault : Option LexFault} (found : token c cs = .token kind more fault) (span : Span) :
    Token.Fine ⟨kind, String.ofList (c :: cs.take more), span⟩ := by
  rw [token] at found
  dsimp only at found
  split at found
  · exact fine_quoted found _ _
  · split at found
    · exact fine_quoted found _ _
    · split at found
      · exact fine_quoted found _ _
      · split at found
        · exact fine_quoted found _ _
        · split at found
          · next count shape =>
            cases found
            exact fine_word shape span
          · split at found
            · next shape => exact fine_number shape found span
            · split at found <;> cases found <;> trivial

/-- What begins a text is a token only as `token` reads it. -/
theorem token_of_piece {lineStart : Bool} {c : Char} {cs : List Char} {kind : TokenKind}
    {more : Nat} {fault : Option LexFault} (found : piece lineStart c cs = .token kind more fault) :
    token c cs = .token kind more fault := by
  rw [piece] at found
  split at found
  · cases found
  · split at found
    · cases found
    · split at found
      · cases found
      · split at found
        · split at found <;> cases found
        · exact found

/-! The scan. -/

theorem fine_scan (p : Place) (lineStart : Bool) (cs : List Char) :
    ∀ t ∈ (scan p lineStart cs).filterMap Item.token?, t.Fine := by
  fun_induction scan p lineStart cs with
  | case1 => simp
  | case2 p lineStart c cs more found skipped ih => exact ih
  | case3 => simp [Item.token?]
  | case4 p lineStart c cs kind more fault found lexeme ih =>
    intro t mem
    simp only [List.filterMap_cons, Item.token?, List.mem_cons] at mem
    rcases mem with rfl | mem
    · exact fine_token (token_of_piece found) _
    · exact ih t mem

theorem offsets_scan (p : Place) (lineStart : Bool) (cs : List Char) :
    (∀ t ∈ (scan p lineStart cs).filterMap Item.token?, p.offset ≤ t.span.offset) ∧
      ((scan p lineStart cs).filterMap Item.token?).Pairwise
        fun t u => t.span.offset < u.span.offset := by
  fun_induction scan p lineStart cs with
  | case1 => simp
  | case2 p lineStart c cs more found skipped ih =>
    have further : p.offset ≤ (p.past skipped).offset := by simp
    exact ⟨fun t mem => Nat.le_trans further (ih.1 t mem), ih.2⟩
  | case3 => simp [List.filterMap_cons, Item.token?]
  | case4 p lineStart c cs kind more fault found lexeme ih =>
    have further : p.offset < (p.past lexeme).offset := by
      have wide := c.utf8Size_pos
      simp only [lexeme, Place.offset_past, Text.byteCount_cons]
      omega
    simp only [List.filterMap_cons, Item.token?]
    constructor
    · intro t mem
      rcases List.mem_cons.mp mem with rfl | mem
      · exact Nat.le_refl _
      · exact Nat.le_trans (Nat.le_of_lt further) (ih.1 t mem)
    · exact List.pairwise_cons.mpr ⟨fun t mem => Nat.lt_of_lt_of_le further (ih.1 t mem), ih.2⟩

end Lexer

/-! The tokens that a parser reads. -/

theorem fine_tokenize (text : String) :
    ∀ t ∈ (tokenize text).tokens.filter (·.isReadable), t.Fine := by
  intro t mem
  obtain ⟨mem, readable⟩ := List.mem_filter.mp mem
  rcases List.mem_append.mp mem with mem | mem
  · exact Lexer.fine_scan _ _ _ t mem
  · rw [List.mem_singleton.mp mem]
    trivial

theorem increasing_tokenize (text : String) :
    ((tokenize text).tokens.filter (·.isReadable)).Pairwise
      fun t u => t.span.offset < u.span.offset := by
  rw [tokenize, List.filter_append]
  have last : [endToken text.toList].filter (·.isReadable) = [] := rfl
  rw [last, List.append_nil]
  exact (Lexer.offsets_scan _ _ _).2.sublist List.filter_sublist

end Idl
