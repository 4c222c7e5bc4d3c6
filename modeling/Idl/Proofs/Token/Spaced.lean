import Idl.Proofs.Token.Reported
import Idl.Proofs.Token.Scanned
import Mathlib

/-!
Tokens delimit themselves. The texts of the tokens of a text without faults, with single blanks
between them, are scanned to the same tokens again. Main statement: `tokenize_spaced`.
-/

set_option autoImplicit false

namespace Idl

/-- What the token is, wherever it stands. -/
def Token.content (t : Token) : TokenKind × String := (t.kind, t.lexeme)

/-- The texts of the tokens, with a blank between each two. -/
def spaced (ts : List Token) : String := " ".intercalate (ts.map (·.lexeme))

/-- The token has a text of its class. -/
def Token.IsLexical (t : Token) : Prop := Lexical t.kind t.lexeme.toList

/-- Where nothing is wrong with a text, each of its tokens has a text of its class. -/
theorem Lexer.lexical_scan (p : Place) (fresh : Bool) (cs : List Char)
    (clean : (scan p fresh cs).filterMap Item.error? = []) :
    ∀ t ∈ (scan p fresh cs).filterMap Item.token?, t.IsLexical := by
  fun_induction scan p fresh cs with
  | case1 => simp
  | case2 p fresh c cs more found skipped ih => exact ih clean
  | case3 p fresh c cs found => cases clean
  | case4 p fresh c cs kind more fault found lexeme ih =>
    cases fault with
    | some f => cases clean
    | none =>
      intro t mem
      rcases List.mem_cons.mp mem with rfl | mem
      · obtain ⟨text, rest, rfl, rfl, lexical, -⟩ := lexical_of_piece found
        simpa [Token.IsLexical, lexeme] using lexical
      · exact ih clean t mem

/-- Texts of classes are scanned to their tokens where blanks keep them apart. -/
theorem scans_spaced (ts : List Token) (lexical : ∀ t ∈ ts, t.IsLexical) (p : Place) :
    Scans p (spaced ts).toList [] fun us => us.map Token.content = ts.map Token.content := by
  induction ts generalizing p with
  | nil => exact (Scanned.nil p []).scans rfl
  | cons t ts ih =>
    have first : t.IsLexical := lexical t List.mem_cons_self
    cases ts with
    | nil =>
      have single : spaced [t] = t.lexeme := String.intercalate_singleton
      rw [single]
      exact (Scanned.lexeme first (by simp) (by simp)).scans rfl
    | cons u us =>
      have whole : (spaced (t :: u :: us)).toList =
          t.lexeme.toList ++ ([' '] ++ (spaced (u :: us)).toList) := by
        simp [spaced, String.intercalate_cons_cons]
      have blank : ∀ c ∈ ([' '] ++ (spaced (u :: us)).toList ++ []).head?, c = ' ' := by
        intro c mem
        simpa using mem.symm
      have word : Scanned p t.lexeme.toList ([' '] ++ (spaced (u :: us)).toList ++ [])
          [⟨t.kind, t.lexeme, p.spanOf t.lexeme.toList⟩] := by
        apply Scanned.lexeme first
        · intro c mem
          rw [blank c mem]
          exact endsToken_of_isBlank (by decide) _ _
        · intro _ c mem
          rw [blank c mem]
          decide
      rw [whole]
      apply word.bind
      apply (Scanned.blank _ _).bind
      apply (ih (fun v mem => lexical v (List.mem_cons_of_mem t mem)) _).imp
      intro vs same
      rw [List.nil_append, List.singleton_append, List.map_cons, List.map_cons, same]
      rfl

/-- Tokens without faults are found again in their texts alone, if these are kept apart. -/
theorem tokenize_spaced {text : String} (clean : (tokenize text).errors = []) :
    let tokens := (tokenize text).tokens
    let again := tokenize (spaced (tokens.filter (·.kind ≠ .eof)))
    again.errors = [] ∧ again.tokens.map Token.content = tokens.map Token.content := by
  intro tokens again
  have lexical := Lexer.lexical_scan _ _ _ clean
  generalize read : (Lexer.scan Place.start true text.toList).filterMap Lexer.Item.token? = ts
    at lexical
  have all : tokens = ts ++ [endToken text.toList] := by rw [← read]; rfl
  have inner : tokens.filter (·.kind ≠ .eof) = ts := by
    have last : [endToken text.toList].filter (·.kind ≠ .eof) = [] := rfl
    rw [all, List.filter_append, last, List.append_nil, List.filter_eq_self]
    intro t mem
    simpa using (lexical t mem).readable.2
  obtain ⟨us, scanned, same⟩ := scans_spaced ts lexical Place.start
  have found : again = ⟨us ++ [endToken (spaced ts).toList], []⟩ := by
    rw [← tokenize_of_scanned scanned, ← inner]
  rw [found, all, List.map_append, List.map_append, same]
  exact ⟨rfl, rfl⟩

/-- Words, quotes, numbers and marks that stand against each other, with comments and a directive
between some. -/
def denseText : String := "#p \\\n x\n::a:L'\\''0x1F/**/.0e3/L<07>0.//c\n9;0D"

theorem tokenize_spaced_dense :
    let tokens := (tokenize denseText).tokens
    let again := tokenize (spaced (tokens.filter (·.kind ≠ .eof)))
    (tokenize denseText).errors = [] ∧ tokens.length = 16 ∧
      again.errors = [] ∧ again.tokens.map Token.content = tokens.map Token.content := by
  have clean : (tokenize denseText).errors = [] := by decide +kernel
  exact ⟨clean, by decide +kernel, tokenize_spaced clean⟩

end Idl
