import Idl.Proofs.Token.Fine
import Mathlib.Data.List.Forall2

/-!
Malformed tokens and what is reported of them. Each is told once, at its own place, and nothing else
is but a comment that is not closed. Main statement: `reported_tokenize`.
-/

set_option autoImplicit false

namespace Idl

/-- What is told of a text with the tokens: `told` of the malformed ones, in their order, and last of
a comment that is not closed, if there is one. -/
structure Reported (tokens : List Token) (errors told : List LexError)
    (unclosed : Option LexError) : Prop where
  split : errors = told ++ unclosed.toList
  /-- One fault for each malformed token, in the same order and at the same place. -/
  answers : List.Forall₂ (fun (e : LexError) (t : Token) =>
    e.fault ≠ .openComment ∧ e.span = t.span) told (tokens.filter (·.kind = .invalid))
  /-- No token stands behind the beginning of a comment that is not closed. -/
  last : ∀ e ∈ unclosed, e.fault = .openComment ∧
    ∀ t ∈ tokens, t.kind ≠ .eof → t.span.stop ≤ e.span.offset

/-- A token is malformed just if it has a fault, which is its own. -/
def Blamed (kind : TokenKind) : Option LexFault → Prop
  | none => kind ≠ .invalid
  | some fault => kind = .invalid ∧ fault ≠ .openComment

namespace Lexer

/-- The piece is a token that is blamed if it is malformed. -/
def Piece.IsBlamed : Piece → Prop
  | .gap _ => False
  | .unclosed => False
  | .token kind _ fault => Blamed kind fault

/-! Single tokens. -/

theorem isBlamed_literal (kind : LiteralKind) (noun : String) (count : Nat) (cs : List Char) :
    (literal kind noun count cs).IsBlamed := by
  rw [literal]
  split
  · show TokenKind.literal kind ≠ .invalid
    simp
  · exact ⟨rfl, by simp⟩

theorem isBlamed_number (kind : LiteralKind) (count : Nat) (cs : List Char) :
    (number kind count cs).IsBlamed := by
  rw [number]
  dsimp only
  split
  · apply isBlamed_literal
  · exact ⟨rfl, by simp⟩

theorem isBlamed_quoted (wide : Bool) (quote : Char) (cs : List Char) :
    (quoted wide quote cs).IsBlamed := by
  rw [quoted]
  split
  · refine ⟨rfl, ?_⟩
    split <;> simp
  · split <;> apply isBlamed_literal

theorem isBlamed_token (c : Char) (cs : List Char) : (token c cs).IsBlamed := by
  rw [token]
  dsimp only
  split
  · apply isBlamed_quoted
  split
  · apply isBlamed_quoted
  split
  · apply isBlamed_quoted
  split
  · apply isBlamed_quoted
  split
  · show _ ≠ TokenKind.invalid
    split <;> simp
  split
  · apply isBlamed_number
  split
  · show TokenKind.punct _ ≠ .invalid
    simp
  · exact ⟨rfl, by simp⟩

theorem blamed_of_piece {fresh : Bool} {c : Char} {cs : List Char} {kind : TokenKind} {more : Nat}
    {fault : Option LexFault} (found : piece fresh c cs = .token kind more fault) :
    Blamed kind fault := by
  have blamed := isBlamed_token c cs
  rw [token_of_piece found] at blamed
  exact blamed

end Lexer

/-! The scan. -/

namespace Reported

variable {tokens : List Token} {errors told : List LexError} {unclosed : Option LexError}

/-- A token in front of all that is reported, and in front of a comment that is not closed. -/
theorem cons (reported : Reported tokens errors told unclosed) {t : Token}
    {fault : Option LexFault} (blamed : Blamed t.kind fault)
    (before : ∀ e ∈ unclosed, t.span.stop ≤ e.span.offset) :
    ∃ told, Reported (t :: tokens) ((fault.map fun f => ⟨f, t.span⟩).toList ++ errors) told
      unclosed := by
  have last : ∀ e ∈ unclosed, e.fault = .openComment ∧
      ∀ u ∈ t :: tokens, u.kind ≠ .eof → u.span.stop ≤ e.span.offset := by
    intro e mem
    obtain ⟨isOpen, others⟩ := reported.last e mem
    refine ⟨isOpen, fun u inside inner => ?_⟩
    rcases List.mem_cons.mp inside with rfl | inside
    · exact before e mem
    · exact others u inside inner
  cases fault with
  | none =>
    have sound : t.kind ≠ .invalid := blamed
    have skipped : (t :: tokens).filter (·.kind = .invalid) = tokens.filter (·.kind = .invalid) :=
      List.filter_cons_of_neg (by simpa using sound)
    exact ⟨told, reported.split, skipped ▸ reported.answers, last⟩
  | some f =>
    obtain ⟨malformed, other⟩ := blamed
    have kept : (t :: tokens).filter (·.kind = .invalid) =
        t :: tokens.filter (·.kind = .invalid) :=
      List.filter_cons_of_pos (by simpa using malformed)
    refine ⟨⟨f, t.span⟩ :: told, ?_, ?_, last⟩
    · simp [reported.split]
    · rw [kept]
      exact .cons ⟨other, rfl⟩ reported.answers

end Reported

/-- What is reported of a text that begins at `p`. A comment that is not closed begins at `p` or
behind it. -/
theorem Lexer.reported_scan (p : Place) (fresh : Bool) (cs : List Char) :
    ∃ told unclosed, Reported ((scan p fresh cs).filterMap Item.token?)
      ((scan p fresh cs).filterMap Item.error?) told unclosed ∧
      ∀ e ∈ unclosed, p.offset ≤ e.span.offset := by
  fun_induction scan p fresh cs with
  | case1 => exact ⟨[], none, ⟨rfl, .nil, by simp⟩, by simp⟩
  | case2 p fresh c cs more found skipped ih =>
    obtain ⟨told, unclosed, reported, behind⟩ := ih
    refine ⟨told, unclosed, reported, fun e mem => ?_⟩
    have further := behind e mem
    rw [Place.offset_past] at further
    omega
  | case3 p fresh c cs found =>
    refine ⟨[], some ⟨.openComment, ⟨p.offset, 2, p.line, p.column⟩⟩, ⟨rfl, .nil, ?_⟩, ?_⟩
    · intro e mem
      obtain rfl := Option.mem_some.mp mem
      exact ⟨rfl, by simp [Item.token?]⟩
    · intro e mem
      obtain rfl := Option.mem_some.mp mem
      exact Nat.le_refl _
  | case4 p fresh c cs kind more fault found lexeme ih =>
    obtain ⟨told, unclosed, reported, behind⟩ := ih
    have stop : (p.spanOf lexeme).stop = (p.past lexeme).offset := p.stop_spanOf lexeme
    obtain ⟨told, reported⟩ := reported.cons (t := ⟨kind, String.ofList lexeme, p.spanOf lexeme⟩)
      (blamed_of_piece found) fun e mem => stop ▸ behind e mem
    refine ⟨told, unclosed, ?_, fun e mem => ?_⟩
    · cases fault <;> exact reported
    · have further := behind e mem
      rw [Place.offset_past] at further
      omega

theorem reported_tokenize (text : String) : ∃ told unclosed,
    Reported (tokenize text).tokens (tokenize text).errors told unclosed := by
  obtain ⟨told, unclosed, reported, -⟩ := Lexer.reported_scan Place.start true text.toList
  refine ⟨told, unclosed, reported.split, ?_, fun e mem => ?_⟩
  · -- the end of a text is not malformed
    have last : [endToken text.toList].filter (·.kind = .invalid) = [] := rfl
    rw [tokenize, List.filter_append, last, List.append_nil]
    exact reported.answers
  · obtain ⟨isOpen, others⟩ := reported.last e mem
    refine ⟨isOpen, fun t inside inner => ?_⟩
    rcases List.mem_append.mp inside with inside | inside
    · exact others t inside inner
    · rw [List.mem_singleton.mp inside] at inner
      exact absurd rfl inner

end Idl
