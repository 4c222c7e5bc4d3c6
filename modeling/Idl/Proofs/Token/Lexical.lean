import Idl.Proofs.Token.Number
import Idl.Proofs.Token.Quote

/-!
The texts of tokens, said without the scanner. What is read without a fault is a text of its class,
and a text of a class is read as one token wherever nothing behind it goes on. Main statements:
`Lexer.lexical_of_token` and `Lexer.piece_append`.
-/

set_option autoImplicit false

namespace Idl

/-- The class of a word. -/
def TokenKind.ofWord (word : String) : TokenKind :=
  match Keyword.ofText? word with
  | some k => .keyword k
  | none => .ident

/-- The class of what stands between quotes. -/
def quotedKind (wide : Bool) (quote : Char) : LiteralKind :=
  if quote = '"' then if wide then .wstring else .string else if wide then .wchar else .char

/-- What begins a quoted literal, with the wide mark or without. -/
def openQuote (wide : Bool) (quote : Char) : List Char := (if wide then ['L'] else []) ++ [quote]

/-- The texts of each class of tokens. -/
inductive Lexical : TokenKind → List Char → Prop
  | word {c : Char} {cs : List Char} (starts : Shape.startsWord c = true)
      (continues : ∀ d ∈ cs, Shape.continuesWord d = true) :
      Lexical (.ofWord (String.ofList (c :: cs))) (c :: cs)
  | number {kind : LiteralKind} {text : List Char} (shape : Shape.IsNumber kind text)
      (value : Lexeme.fault? kind text = none) : Lexical (.literal kind) text
  | quoted {wide : Bool} {quote : Char} {body : List Char} (valid : IsQuote quote)
      (closes : Closes quote body)
      (value : Lexeme.fault? (quotedKind wide quote) (openQuote wide quote ++ body) = none) :
      Lexical (.literal (quotedKind wide quote)) (openQuote wide quote ++ body)
  | mark (mark : Punct) : Lexical (.punct mark) mark.text.toList

/-- The character does not go on with a token in front of it. Behind its quote a literal is over. -/
def EndsToken (text : List Char) : TokenKind → Char → Prop
  | .literal .char, _ | .literal .wchar, _ | .literal .string, _ | .literal .wstring, _ => True
  | .literal kind, d => Shape.EndsNumber kind d
  | .punct .colon, d => d ≠ ':'
  | .punct _, _ => True
  | _, d => Shape.continuesWord d = false ∧ (text = ['L'] → d ≠ '\'' ∧ d ≠ '"')

theorem Lexical.ne_nil {kind : TokenKind} {text : List Char} (lexical : Lexical kind text) :
    text ≠ [] := by
  cases lexical with
  | word _ _ => exact List.cons_ne_nil _ _
  | number shape _ =>
    obtain ⟨c, cs, rfl, -⟩ := shape.numeral
    exact List.cons_ne_nil _ _
  | quoted _ _ _ => simp [openQuote]
  | mark mark => cases mark <;> decide

theorem TokenKind.readable_ofWord (word : String) :
    TokenKind.ofWord word ≠ .invalid ∧ TokenKind.ofWord word ≠ .eof := by
  rw [ofWord]
  split <;> simp

theorem Lexical.readable {kind : TokenKind} {text : List Char} (lexical : Lexical kind text) :
    kind ≠ .invalid ∧ kind ≠ .eof := by
  cases lexical with
  | word _ _ => apply TokenKind.readable_ofWord
  | number _ _ => simp
  | quoted _ _ _ => simp
  | mark _ => simp

theorem endsToken_word_iff {text : List Char} {d : Char} (word : String) :
    EndsToken text (.ofWord word) d ↔
      Shape.continuesWord d = false ∧ (text = ['L'] → d ≠ '\'' ∧ d ≠ '"') := by
  rw [TokenKind.ofWord]
  split <;> rfl

theorem endsToken_number_iff {kind : LiteralKind} {number text : List Char} {d : Char}
    (shape : Shape.IsNumber kind number) :
    EndsToken text (.literal kind) d ↔ Shape.EndsNumber kind d := by
  cases shape <;> rfl

theorem endsToken_quoted (text : List Char) (wide : Bool) (quote d : Char) :
    EndsToken text (.literal (quotedKind wide quote)) d := by
  rw [quotedKind]
  split <;> cases wide <;> trivial

/-! A text of a class is one token. -/

theorem continuesWord_of_startsWord {c : Char} (starts : Shape.startsWord c = true) :
    Shape.continuesWord c = true := by
  simp only [Shape.startsWord, Bool.or_eq_true] at starts
  simp only [Shape.continuesWord, Bool.or_eq_true]
  exact starts.imp_left Or.inl

theorem startsWord_of_isDigit {c : Char} (digit : Shape.isDigit c = true) :
    Shape.startsWord c = false := by
  simp only [Shape.isDigit, Bool.and_eq_true, decide_eq_true_eq] at digit
  rw [Bool.eq_false_iff]
  intro starts
  simp only [Shape.startsWord, Shape.isAlpha, Bool.or_eq_true, Bool.and_eq_true,
    decide_eq_true_eq] at starts
  obtain (⟨low, -⟩ | ⟨low, -⟩) | rfl := starts
  · exact absurd (Char.le_trans low digit.2) (by decide)
  · exact absurd (Char.le_trans low digit.2) (by decide)
  · exact absurd digit (by decide)

namespace Lexer

variable {kind : TokenKind} {c : Char} {cs after : List Char}

theorem token_of_word (starts : Shape.startsWord c = true)
    (continues : ∀ d ∈ cs, Shape.continuesWord d = true)
    (ends : ∀ d ∈ after.head?, Shape.continuesWord d = false ∧
      (c :: cs = ['L'] → d ≠ '\'' ∧ d ≠ '"')) :
    token c (cs ++ after) = .token (.ofWord (String.ofList (c :: cs))) cs.length none := by
  have shape : Shape.ident? (c :: (cs ++ after)) = some (1 + cs.length) := by
    rw [Shape.ident?, if_pos starts, Shape.run_append continues fun d mem => (ends d mem).1]
  have distinct {d : Char} (other : Shape.startsWord d = false) : c ≠ d := by
    rintro rfl
    rw [starts] at other
    cases other
  have apostrophe : c ≠ '\'' := distinct (by decide)
  have mark : c ≠ '"' := distinct (by decide)
  -- no quote makes a wide literal of the word
  have unquoted (wide : c = 'L') : ∀ d ∈ (cs ++ after).head?, d ≠ '\'' ∧ d ≠ '"' := by
    intro d mem
    cases cs with
    | nil =>
      apply (ends d mem).2
      rw [wide]
    | cons e es =>
      obtain rfl : e = d := by simpa using mem
      have word := continues e (List.mem_cons_self ..)
      constructor <;> (rintro rfl; cases word)
  have single : ¬(c = 'L' && (cs ++ after).head? = some '\'') = true := by
    rw [Bool.and_eq_true, decide_eq_true_eq, decide_eq_true_eq]
    rintro ⟨wide, quote⟩
    exact (unquoted wide '\'' quote).1 rfl
  have double : ¬(c = 'L' && (cs ++ after).head? = some '"') = true := by
    rw [Bool.and_eq_true, decide_eq_true_eq, decide_eq_true_eq]
    rintro ⟨wide, quote⟩
    exact (unquoted wide '"' quote).2 rfl
  rw [token]
  dsimp only
  rw [if_neg single, if_neg apostrophe, if_neg double, if_neg mark, shape]
  dsimp only
  rw [Nat.add_comm, List.take_succ_cons, List.take_left, Nat.add_sub_cancel]
  rfl

theorem literal_of_value {kind : LiteralKind} (noun : String) {lexeme : List Char}
    (value : Lexeme.fault? kind lexeme = none) :
    literal kind noun lexeme.length (lexeme ++ after) =
      .token (.literal kind) (lexeme.length - 1) none := by
  rw [literal]
  simp only [List.take_left, value]

theorem token_of_number {kind : LiteralKind} (number : Shape.IsNumber kind (c :: cs))
    (value : Lexeme.fault? kind (c :: cs) = none)
    (ends : ∀ d ∈ after.head?, Shape.EndsNumber kind d) :
    token c (cs ++ after) = .token (.literal kind) cs.length none := by
  have shape := Shape.number?_append number ends
  rw [List.cons_append] at shape
  have trailing : Shape.run Shape.continuesWord after = 0 :=
    Shape.run_stop fun d mem => (ends d mem).1
  obtain ⟨_, _, whole, first⟩ := number.numeral
  obtain ⟨rfl, rfl⟩ := List.cons.inj whole
  have distinct {d : Char} (other : Shape.isDigit d = false ∧ d ≠ '.') : c ≠ d := by
    rintro rfl
    rcases first with digit | point
    · rw [digit] at other
      exact absurd other.1 (by decide)
    · exact other.2 point
  have noWord : Shape.ident? (c :: (cs ++ after)) = none := by
    have starts : Shape.startsWord c = false := by
      rcases first with digit | rfl
      · exact startsWord_of_isDigit digit
      · decide
    rw [Shape.ident?, starts]
    rfl
  have wide : c ≠ 'L' := distinct (by decide)
  have apostrophe : c ≠ '\'' := distinct (by decide)
  have mark : c ≠ '"' := distinct (by decide)
  rw [token]
  simp only [wide, apostrophe, mark, noWord, shape, decide_false, Bool.false_and,
    Bool.false_eq_true, if_false]
  rw [Lexer.number, ← List.cons_append, List.drop_left]
  simp only [trailing, if_true]
  exact literal_of_value "numeric" value

theorem quoted_of_closes {wide : Bool} {quote : Char} {body : List Char} (valid : IsQuote quote)
    (closes : Closes quote body)
    (value : Lexeme.fault? (quotedKind wide quote) (openQuote wide quote ++ body) = none) :
    quoted wide quote (openQuote wide quote ++ body ++ after) =
      .token (.literal (quotedKind wide quote)) ((openQuote wide quote ++ body).length - 1)
        none := by
  have start : (if wide then 2 else 1) = (openQuote wide quote).length := by
    cases wide <;> rfl
  have found (noun : String) : literal (quotedKind wide quote) noun
      (openQuote wide quote ++ body).length (openQuote wide quote ++ body ++ after) = _ :=
    literal_of_value noun value
  rw [quoted, start, List.append_assoc, List.drop_left, closing?_append valid closes]
  dsimp only
  rw [← List.append_assoc, ← List.length_append,
    ← found (if quote = '"' then "string" else "character"), quotedKind]
  split <;> rfl

theorem token_of_quoted {wide : Bool} {quote : Char} {body : List Char} (valid : IsQuote quote)
    (closes : Closes quote body)
    (value : Lexeme.fault? (quotedKind wide quote) (openQuote wide quote ++ body) = none)
    (whole : openQuote wide quote ++ body = c :: cs) :
    token c (cs ++ after) = .token (.literal (quotedKind wide quote)) cs.length none := by
  have found : quoted wide quote (c :: (cs ++ after)) =
      .token (.literal (quotedKind wide quote)) cs.length none := by
    rw [← List.cons_append, ← whole, quoted_of_closes valid closes value, whole]
    rfl
  rw [← found]
  cases wide with
  | false =>
    obtain ⟨rfl, rfl⟩ := List.cons.inj whole
    obtain rfl | rfl := valid <;> rfl
  | true =>
    obtain ⟨rfl, rfl⟩ := List.cons.inj whole
    obtain rfl | rfl := valid <;> rfl

theorem token_of_punct {mark : Punct} {count : Nat} (unquoted : c ≠ 'L' ∧ c ≠ '\'' ∧ c ≠ '"')
    (noWord : Shape.ident? (c :: cs) = none) (noNumber : Shape.number? (c :: cs) = none)
    (shape : Shape.punct? (c :: cs) = some (mark, count)) :
    token c cs = .token (.punct mark) (count - 1) none := by
  obtain ⟨narrow, noChar, noString⟩ := unquoted
  simp only [token, narrow, noChar, noString, decide_false, Bool.false_and, Bool.false_eq_true,
    if_false, noWord, noNumber, shape]

/-- A colon is read alone if no other one makes a longer mark of it. -/
theorem token_of_mark {mark : Punct} (whole : mark.text.toList = c :: cs)
    (ends : ∀ d ∈ after.head?, mark = .colon → d ≠ ':') :
    token c (cs ++ after) = .token (.punct mark) cs.length none := by
  cases mark with
  | colon =>
    obtain ⟨rfl, rfl⟩ := List.cons.inj whole
    have single : Shape.punct? (':' :: after) = some (.colon, 1) := by
      rw [Shape.punct?]
      · rfl
      · rintro ds - rfl
        exact ends ':' rfl rfl rfl
    exact token_of_punct (by decide) rfl rfl single
  | _ =>
    obtain ⟨rfl, rfl⟩ := List.cons.inj whole
    rfl

/-- A text of a class is read as one token of it where no character goes on with it. -/
theorem token_append (lexical : Lexical kind (c :: cs))
    (ends : ∀ d ∈ after.head?, EndsToken (c :: cs) kind d) :
    token c (cs ++ after) = .token kind cs.length none := by
  generalize whole : c :: cs = text at lexical
  cases lexical with
  | word starts continues =>
    obtain ⟨rfl, rfl⟩ := List.cons.inj whole
    apply token_of_word starts continues
    intro d mem
    exact (endsToken_word_iff _).mp (ends d mem)
  | number shape value =>
    subst whole
    apply token_of_number shape value
    intro d mem
    exact (endsToken_number_iff shape).mp (ends d mem)
  | quoted valid closes value => exact token_of_quoted valid closes value whole.symm
  | mark mark =>
    apply token_of_mark whole.symm
    rintro d mem rfl
    exact ends d mem

/-! A token without a fault is a text of its class. -/

theorem of_literal {literalKind : LiteralKind} {noun : String} {lexeme rest : List Char}
    {more : Nat} (found : literal literalKind noun lexeme.length (lexeme ++ rest) =
      .token kind more none) :
    kind = .literal literalKind ∧ more = lexeme.length - 1 ∧
      Lexeme.fault? literalKind lexeme = none := by
  rw [literal, List.take_left] at found
  split at found
  · next value =>
    cases found
    exact ⟨rfl, rfl, value⟩
  · cases found

/-- The token at the front, with `more` characters behind its first one, is a text of its class, and
what follows does not go on with it. -/
def ReadAs (kind : TokenKind) (more : Nat) (cs : List Char) : Prop :=
  ∃ text rest, cs = text ++ rest ∧ more = text.length - 1 ∧ Lexical kind text ∧
    ∀ d ∈ rest.head?, EndsToken text kind d

variable {count more : Nat}

theorem readAs_number {literalKind : LiteralKind}
    (shape : Shape.number? cs = some (literalKind, count))
    (found : number literalKind count cs = .token kind more none) : ReadAs kind more cs := by
  obtain ⟨text, rest, rfl, rfl, isNumber, point⟩ := Shape.exists_of_number? shape
  rw [number, List.drop_left] at found
  dsimp only at found
  split at found
  · next trailing =>
    have stop : ∀ d ∈ rest.head?, Shape.continuesWord d = false := by
      intro d mem
      obtain ⟨tail, rfl⟩ := List.head?_eq_some_iff.mp mem
      rw [Shape.run, List.length_eq_zero_iff, List.takeWhile_eq_nil_iff] at trailing
      simpa using trailing
    obtain ⟨rfl, rfl, value⟩ := of_literal found
    refine ⟨text, rest, rfl, rfl, .number isNumber value, fun d mem => ?_⟩
    rw [endsToken_number_iff isNumber]
    exact ⟨stop d mem, fun plain => point plain d mem⟩
  · cases found

theorem readAs_quoted (wide : Bool) {quote : Char} (valid : IsQuote quote)
    (found : quoted wide quote (openQuote wide quote ++ cs) = .token kind more none) :
    ReadAs kind more (openQuote wide quote ++ cs) := by
  have start : (if wide then 2 else 1) = (openQuote wide quote).length := by
    cases wide <;> rfl
  rw [quoted, start, List.drop_left] at found
  split at found
  · cases found
  · next count closed =>
    obtain ⟨body, rest, rfl, rfl, closes⟩ := exists_of_closing? closed
    rw [← List.append_assoc, ← List.length_append] at found
    rw [← List.append_assoc]
    -- either way the text is a literal of its class
    obtain ⟨noun, found⟩ : ∃ noun, literal (quotedKind wide quote) noun
        (openQuote wide quote ++ body).length (openQuote wide quote ++ body ++ rest) =
          .token kind more none := by
      split at found
      · next double => exact ⟨_, by rwa [quotedKind, if_pos double]⟩
      · next single => exact ⟨_, by rwa [quotedKind, if_neg single]⟩
    obtain ⟨rfl, rfl, value⟩ := of_literal found
    exact ⟨_, rest, rfl, rfl, .quoted valid closes value,
      fun d _ => endsToken_quoted _ wide quote d⟩

theorem readAs_ident (shape : Shape.ident? (c :: cs) = some count)
    (unquoted : c = 'L' → ∀ d ∈ cs.head?, d ≠ '\'' ∧ d ≠ '"') :
    ReadAs (.ofWord (String.ofList ((c :: cs).take count))) (count - 1) (c :: cs) := by
  rw [Shape.ident?] at shape
  split at shape
  · next starts =>
    cases shape
    obtain ⟨word, rest, rfl, length, continues, stop⟩ := Shape.exists_of_run Shape.continuesWord cs
    rw [← length, Nat.add_comm, List.take_succ_cons, List.take_left]
    refine ⟨c :: word, rest, rfl, rfl, .word starts continues, fun d mem => ?_⟩
    rw [endsToken_word_iff]
    refine ⟨stop d mem, fun alone => ?_⟩
    obtain ⟨rfl, rfl⟩ := List.cons.inj alone
    exact unquoted rfl d mem
  · cases shape

theorem readAs_punct {mark : Punct} (shape : Shape.punct? cs = some (mark, count)) :
    ReadAs (.punct mark) (count - 1) cs := by
  rw [Shape.punct?.eq_def] at shape
  split at shape
  · next rest =>
    cases shape
    exact ⟨[':', ':'], rest, rfl, rfl, .mark .colonColon, fun _ _ => trivial⟩
  · next c cs other =>
    obtain ⟨p, found, pair⟩ := Option.map_eq_some_iff.mp shape
    cases pair
    have text : mark.text.toList = [c] := by simpa using List.find?_some found
    have lexical := Lexical.mark mark
    rw [text] at lexical
    refine ⟨[c], cs, rfl, rfl, lexical, fun d mem => ?_⟩
    cases mark with
    | colon =>
      rintro rfl
      obtain ⟨rest, rfl⟩ := List.head?_eq_some_iff.mp mem
      obtain rfl := (List.cons.inj text).1
      exact other rest rfl rfl
    | _ => trivial
  · cases shape

/-- A token without a fault is a text of its class. -/
theorem readAs_of_token (found : token c cs = .token kind more none) :
    ReadAs kind more (c :: cs) := by
  rw [token] at found
  dsimp only at found
  have opens {quote : Char} (mark : (c = 'L' && cs.head? = some quote) = true) :
      c :: cs = openQuote true quote ++ cs.tail := by
    rw [Bool.and_eq_true, decide_eq_true_eq, decide_eq_true_eq] at mark
    obtain ⟨rfl, next⟩ := mark
    obtain ⟨rest, rfl⟩ := List.head?_eq_some_iff.mp next
    rfl
  split at found
  · next mark =>
    rw [opens mark] at found ⊢
    exact readAs_quoted true (.inr rfl) found
  next noChar =>
  split at found
  · next mark =>
    rw [mark] at found ⊢
    exact readAs_quoted false (.inr rfl) found
  split at found
  · next mark =>
    rw [opens mark] at found ⊢
    exact readAs_quoted true (.inl rfl) found
  next noString =>
  split at found
  · next mark =>
    rw [mark] at found ⊢
    exact readAs_quoted false (.inl rfl) found
  split at found
  · next count shape =>
    cases found
    apply readAs_ident shape
    rintro rfl d mem
    constructor
    · rintro rfl
      exact noChar (by simpa using mem)
    · rintro rfl
      exact noString (by simpa using mem)
  split at found
  · next shape => exact readAs_number shape found
  split at found
  · next shape =>
    cases found
    exact readAs_punct shape
  · cases found

/-! Tokens and the gaps between them. -/

theorem isBlank_eq_false (visible : 32 < c.toNat ∧ c.toNat < 127) : Text.isBlank c = false := by
  simp [Text.isBlank]
  omega

theorem toNat_le {c d : Char} (le : c ≤ d) : c.toNat ≤ d.toNat := by
  rw [Char.le_def, UInt32.le_iff_toNat_le] at le
  exact le

theorem visible_of_continuesWord (word : Shape.continuesWord c = true) :
    32 < c.toNat ∧ c.toNat < 127 := by
  -- the character is within a range that is visible
  have within {low high : Char} (first : low ≤ c) (last : c ≤ high) (visible : 32 < low.toNat)
      (ascii : high.toNat < 127) : 32 < c.toNat ∧ c.toNat < 127 :=
    ⟨Nat.lt_of_lt_of_le visible (toNat_le first), Nat.lt_of_le_of_lt (toNat_le last) ascii⟩
  simp only [Shape.continuesWord, Shape.isAlpha, Shape.isDigit, Bool.or_eq_true, Bool.and_eq_true,
    decide_eq_true_eq] at word
  obtain ((⟨low, high⟩ | ⟨low, high⟩) | ⟨low, high⟩) | rfl := word
  · exact within low high (by decide) (by decide)
  · exact within low high (by decide) (by decide)
  · exact within low high (by decide) (by decide)
  · decide

/-- No gap begins with a token, unless a slash is followed by what makes a comment of it. -/
theorem head_of_lexical (lexical : Lexical kind (c :: cs)) :
    Text.isBlank c = false ∧ c ≠ '#' ∧ (c = '/' → kind = .punct .slash ∧ cs = []) := by
  have word {d : Char} (continues : Shape.continuesWord d = true) :
      Text.isBlank d = false ∧ d ≠ '#' ∧ d ≠ '/' := by
    refine ⟨isBlank_eq_false (visible_of_continuesWord continues), ?_, ?_⟩
    · rintro rfl
      cases continues
    · rintro rfl
      cases continues
  generalize whole : c :: cs = text at lexical
  cases lexical with
  | word starts continues =>
    obtain ⟨rfl, rfl⟩ := List.cons.inj whole
    obtain ⟨blank, hash, slash⟩ := word (continuesWord_of_startsWord starts)
    exact ⟨blank, hash, fun eq => absurd eq slash⟩
  | number shape value =>
    obtain ⟨d, ds, split, first⟩ := shape.numeral
    obtain ⟨rfl, rfl⟩ := List.cons.inj (whole.trans split)
    rcases first with digit | rfl
    · obtain ⟨blank, hash, slash⟩ := word (d := c) (by simp [Shape.continuesWord, digit])
      exact ⟨blank, hash, fun eq => absurd eq slash⟩
    · exact ⟨by decide, by decide, fun eq => absurd eq (by decide)⟩
  | @quoted wide quote body valid closes value =>
    rcases valid with rfl | rfl <;> cases wide <;> obtain ⟨rfl, rfl⟩ := List.cons.inj whole <;>
      exact ⟨by decide, by decide, fun eq => absurd eq (by decide)⟩
  | mark mark =>
    cases mark <;> obtain ⟨rfl, rfl⟩ := List.cons.inj whole <;> decide

theorem piece_eq_token (fresh : Bool) (blank : Text.isBlank c = false) (hash : c ≠ '#')
    (comment : c = '/' → ∀ d ∈ cs.head?, d ≠ '/' ∧ d ≠ '*') : piece fresh c cs = token c cs := by
  have noLine : Shape.lineComment? (c :: cs) = none := by
    rw [Shape.lineComment?]
    rintro ds eq
    obtain ⟨rfl, rfl⟩ := List.cons.inj eq
    exact (comment rfl '/' rfl).1 rfl
  have noBlock : ¬(c = '/' && cs.head? = some '*') = true := by
    rw [Bool.and_eq_true, decide_eq_true_eq, decide_eq_true_eq]
    rintro ⟨slash, star⟩
    exact (comment slash '*' star).2 rfl
  rw [piece, noLine]
  simp only [blank, hash, decide_false, Bool.false_and, Bool.false_eq_true, if_false]
  rw [if_neg noBlock]

/-- A text of a class is read as one token of it where nothing behind it goes on with it or makes a
comment of it. -/
theorem piece_append (fresh : Bool) (lexical : Lexical kind (c :: cs))
    (ends : ∀ d ∈ after.head?, EndsToken (c :: cs) kind d)
    (comment : c = '/' → ∀ d ∈ after.head?, d ≠ '/' ∧ d ≠ '*') :
    piece fresh c (cs ++ after) = .token kind cs.length none := by
  obtain ⟨blank, hash, slash⟩ := head_of_lexical lexical
  rw [piece_eq_token fresh blank hash, token_append lexical ends]
  intro eq
  obtain ⟨-, rfl⟩ := slash eq
  exact comment eq

/-- What is read as a token without a fault is a text of its class. -/
theorem lexical_of_piece {fresh : Bool} (found : piece fresh c cs = .token kind more none) :
    ∃ text rest, cs = text ++ rest ∧ text.length = more ∧ Lexical kind (c :: text) ∧
      ∀ d ∈ rest.head?, EndsToken (c :: text) kind d := by
  obtain ⟨text, rest, whole, length, lexical, ends⟩ := readAs_of_token (token_of_piece found)
  cases text with
  | nil => exact (lexical.ne_nil rfl).elim
  | cons d text =>
    obtain ⟨rfl, rfl⟩ := List.cons.inj whole
    exact ⟨text, rest, rfl, length.symm, lexical, ends⟩

end Lexer

/-- A blank goes on with no token. -/
theorem endsToken_of_isBlank {c : Char} (blank : Text.isBlank c = true) (text : List Char)
    (kind : TokenKind) : EndsToken text kind c := by
  have other {d : Char} (visible : Text.isBlank d = false) : c ≠ d := by
    rintro rfl
    rw [blank] at visible
    cases visible
  have word : Shape.continuesWord c = false := by
    rw [Bool.eq_false_iff]
    intro continues
    exact other (Lexer.isBlank_eq_false (Lexer.visible_of_continuesWord continues)) rfl
  have number (kind : LiteralKind) : Shape.EndsNumber kind c :=
    ⟨word, fun _ => other (by decide)⟩
  have single : Shape.continuesWord c = false ∧ (text = ['L'] → c ≠ '\'' ∧ c ≠ '"') :=
    ⟨word, fun _ => ⟨other (by decide), other (by decide)⟩⟩
  cases kind with
  | literal kind => cases kind <;> first | trivial | exact number _
  | punct mark => cases mark <;> first | trivial | exact other (by decide)
  | _ => exact single

end Idl
