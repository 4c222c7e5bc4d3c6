import Idl.Proofs.Token.Lexical
import Idl.Proofs.Token.Numeral

/-!
Texts that are tokens one after the other. Each text is scanned in front of what follows it, so that
no longer token is overlooked. Main statements: `Scanned.append` and one lemma for each class of
token.
-/

set_option autoImplicit false

namespace Idl

namespace Lexer

variable {p : Place} {fresh : Bool} {c : Char} {cs : List Char} {kind : TokenKind} {more : Nat}
  {fault : Option LexFault}

theorem scan_nil (p : Place) (fresh : Bool) : scan p fresh [] = [] := by rw [scan.eq_def]

theorem scan_gap (found : piece fresh c cs = .gap more) :
    scan p fresh (c :: cs) = scan (p.past (c :: cs.take more))
      (fresh || (c :: cs.take more).contains '\n') (cs.drop more) := by
  rw [scan.eq_def]
  simp only [found]

theorem scan_token (found : piece fresh c cs = .token kind more fault) :
    scan p fresh (c :: cs) =
      .token ⟨kind, String.ofList (c :: cs.take more), p.spanOf (c :: cs.take more)⟩ fault ::
        scan (p.past (c :: cs.take more)) ((c :: cs.take more).contains '\n') (cs.drop more) := by
  rw [scan.eq_def]
  simp only [found]

end Lexer

/-- In front of `after`, the text at the place consists of the tokens, and nothing is wrong with
it. -/
structure Scanned (p : Place) (text after : List Char) (ts : List Token) : Prop where
  scan : ∀ fresh, ∃ fresh', Lexer.scan p fresh (text ++ after) =
    ts.map (Lexer.Item.token · none) ++ Lexer.scan (p.past text) fresh' after
  readable : ∀ t ∈ ts, t.isReadable = true
  /-- No token is empty. -/
  few : ts.length ≤ text.length

theorem Delimited.cons {c : Char} {cs : List Char}
    (other : Shape.continuesWord c = false ∧ c ≠ '.' ∧ c ≠ '\'' ∧ c ≠ '"') :
    Delimited (c :: cs) := by
  intro d mem
  obtain rfl : c = d := by simpa using mem
  exact other

namespace Scanned

variable {p : Place} {text more after : List Char} {ts us : List Token} {c : Char}

theorem nil (p : Place) (after : List Char) : Scanned p [] after [] :=
  ⟨fun fresh => ⟨fresh, rfl⟩, by simp, Nat.le_refl _⟩

theorem append (first : Scanned p text (more ++ after) ts)
    (second : Scanned (p.past text) more after us) : Scanned p (text ++ more) after (ts ++ us) where
  scan fresh := by
    obtain ⟨fresh', scan⟩ := first.scan fresh
    obtain ⟨fresh'', scan'⟩ := second.scan fresh'
    refine ⟨fresh'', ?_⟩
    rw [List.append_assoc, scan, scan', Place.past_append, List.map_append, List.append_assoc]
  readable t mem := (List.mem_append.mp mem).elim (first.readable t) (second.readable t)
  few := by
    have one := first.few
    have two := second.few
    rw [List.length_append, List.length_append]
    omega

theorem blank (p : Place) (after : List Char) : Scanned p [' '] after [] where
  scan fresh := by
    refine ⟨fresh, ?_⟩
    have gap : Lexer.piece fresh ' ' after = .gap 0 := rfl
    rw [List.singleton_append, Lexer.scan_gap gap]
    simp
  readable := by simp
  few := Nat.zero_le _

/-- One token. -/
theorem token {kind : TokenKind} (readable : kind ≠ .invalid ∧ kind ≠ .eof)
    (found : ∀ fresh, Lexer.piece fresh c (text ++ after) = .token kind text.length none) :
    Scanned p (c :: text) after [⟨kind, String.ofList (c :: text), p.spanOf (c :: text)⟩] where
  scan fresh := by
    refine ⟨(c :: text).contains '\n', ?_⟩
    rw [List.cons_append, Lexer.scan_token (found fresh), List.take_left, List.drop_left]
    rfl
  readable := by simpa [Token.isReadable] using readable
  few := by simp

end Scanned

/-- In front of `after`, the text at the place consists of tokens with the property. -/
def Scans (p : Place) (text after : List Char) (P : List Token → Prop) : Prop :=
  ∃ ts, Scanned p text after ts ∧ P ts

section

variable {p : Place} {text more after : List Char} {ts : List Token} {P Q : List Token → Prop}

theorem Scanned.scans (scanned : Scanned p text after ts) (holds : P ts) : Scans p text after P :=
  ⟨ts, scanned, holds⟩

theorem Scans.imp (scans : Scans p text after P) (imp : ∀ ts, P ts → Q ts) :
    Scans p text after Q := by
  obtain ⟨ts, scanned, holds⟩ := scans
  exact ⟨ts, scanned, imp ts holds⟩

/-- More text stands behind. -/
theorem Scans.bind (first : Scans p text (more ++ after) P)
    (second : ∀ ts, P ts → Scans (p.past text) more after fun us => Q (ts ++ us)) :
    Scans p (text ++ more) after Q := by
  obtain ⟨ts, scanned, holds⟩ := first
  obtain ⟨us, scanned', holds'⟩ := second ts holds
  exact ⟨ts ++ us, scanned.append scanned', holds'⟩

theorem Scanned.bind (first : Scanned p text (more ++ after) ts)
    (second : Scans (p.past text) more after fun us => Q (ts ++ us)) :
    Scans p (text ++ more) after Q := by
  obtain ⟨us, scanned, holds⟩ := second
  exact ⟨ts ++ us, first.append scanned, holds⟩

end

/-! Single tokens. -/

/-- The literal of a text, with the wide mark or without. -/
def quotedText (wide : Bool) (quote : Char) (text : List Char) : List Char :=
  (if wide then ['L'] else []) ++ Text.quoteLiteral quote text

namespace Scanned

variable {p : Place} {after : List Char}

/-- A text of a class is one token of it. -/
theorem lexeme {kind : TokenKind} {text : String} (lexical : Lexical kind text.toList)
    (ends : ∀ d ∈ after.head?, EndsToken text.toList kind d)
    (comment : kind = .punct .slash → ∀ d ∈ after.head?, d ≠ '/' ∧ d ≠ '*') :
    Scanned p text.toList after [⟨kind, text, p.spanOf text.toList⟩] := by
  obtain ⟨c, cs, whole⟩ := List.exists_cons_of_ne_nil lexical.ne_nil
  have same : String.ofList (c :: cs) = text := by rw [← whole, String.ofList_toList]
  rw [whole] at lexical ends ⊢
  rw [← same]
  apply Scanned.token lexical.readable
  intro fresh
  apply Lexer.piece_append fresh lexical ends
  exact fun eq => comment ((Lexer.head_of_lexical lexical).2.2 eq).1

theorem word {word : String} (shape : IsWord word) (delimited : Delimited after) :
    Scanned p word.toList after [⟨.ofWord word, word, p.spanOf word.toList⟩] := by
  obtain ⟨c, cs, whole, starts, continues⟩ := shape
  have lexical := Lexical.word starts continues
  rw [← whole, String.ofList_toList] at lexical
  apply lexeme lexical
  · intro d mem
    rw [endsToken_word_iff]
    exact ⟨(delimited d mem).1, fun _ => (delimited d mem).2.2⟩
  · rw [TokenKind.ofWord]
    split <;> simp

theorem mark (mark : Punct)
    (apart : mark = .colon ∨ mark = .slash → ∀ d ∈ after.head?, d ≠ ':' ∧ d ≠ '/' ∧ d ≠ '*') :
    Scanned p mark.text.toList after [⟨.punct mark, mark.text, p.spanOf mark.text.toList⟩] := by
  apply lexeme (.mark mark)
  · intro d mem
    cases mark with
    | colon => exact (apart (.inl rfl) d mem).1
    | _ => trivial
  · intro slash d mem
    cases slash
    exact (apart (.inr rfl) d mem).2

theorem plainMark (mark : Punct) (plain : mark ≠ .colon ∧ mark ≠ .slash) (p : Place)
    (after : List Char) :
    Scanned p mark.text.toList after [⟨.punct mark, mark.text, p.spanOf mark.text.toList⟩] :=
  .mark mark fun either => (either.elim plain.1 plain.2).elim

theorem integer {n : Nat} (radix : Radix) (small : n < UInt64.size)
    (delimited : Delimited after) :
    let text := (Literal.integer n radix).text
    Scanned p text.toList after [⟨.literal radix.kind, text, p.spanOf text.toList⟩] := by
  intro text
  have shape := isNumber_integer n radix
  apply lexeme (.number shape (fault?_of_integer radix small))
  · intro d mem
    rw [endsToken_number_iff shape]
    exact ⟨(delimited d mem).1, fun _ => (delimited d mem).2.1⟩
  · simp

theorem quoted {wide : Bool} {quote : Char} (valid : IsQuote quote) {text : List Char}
    (value : Lexeme.fault? (quotedKind wide quote) (quotedText wide quote text) = none) :
    let lexeme := String.ofList (quotedText wide quote text)
    Scanned p lexeme.toList after
      [⟨.literal (quotedKind wide quote), lexeme, p.spanOf lexeme.toList⟩] := by
  intro lexeme
  have split : quotedText wide quote text =
      openQuote wide quote ++ (text.flatMap (Text.escape quote) ++ [quote]) := by
    cases wide <;> simp [quotedText, openQuote, Text.quoteLiteral]
  have lexical : Lexical (.literal (quotedKind wide quote)) lexeme.toList := by
    rw [split] at value
    rw [String.toList_ofList, split]
    exact .quoted valid (closes_body valid text) value
  apply Scanned.lexeme lexical
  · exact fun d _ => endsToken_quoted _ wide quote d
  · simp

end Scanned

/-- A text without faults is its tokens and the end. -/
theorem tokenize_of_scanned {text : String} {ts : List Token}
    (scanned : Scanned Place.start text.toList [] ts) :
    tokenize text = ⟨ts ++ [endToken text.toList], []⟩ := by
  obtain ⟨fresh, scan⟩ := scanned.scan true
  rw [List.append_nil, Lexer.scan_nil, List.append_nil] at scan
  simp [tokenize, scan, List.filterMap_map, Function.comp_def, Lexer.Item.token?,
    Lexer.Item.error?]

end Idl
