import Idl.Grammar.Expr
import Idl.Proofs.Grammar.Formed
import Idl.Proofs.Grammar.Reads
import Idl.Proofs.Token.Value

/-!
Names, literals and constant expressions are read as the grammar forms them. Main statement:
`forms_constExpr`.
-/

set_option autoImplicit false

namespace Idl.Grammar

variable {s : Cursor}

/-- The token that is next, unless none is. -/
theorem fine_peek (fine : ∀ t ∈ s.rest, t.Fine) (some : s.kind ≠ .eof) : s.peek.Fine := by
  cases front : s.rest with
  | nil => exact absurd (by simp [Cursor.kind, Cursor.peek, Cursor.nth, front]) some
  | cons t ts =>
    have next : s.peek = t := by simp [Cursor.peek, Cursor.nth, front]
    rw [next]
    exact fine t (by simp [front])

/-! Names. -/

theorem finds_ident : Finds ident Ident.Formed fun i => [i.span.offset] := by
  intro s fine
  rw [ident]
  split
  · next next =>
    have kind : s.kind ≠ .eof := by rw [Cursor.kind, next]; decide
    have token := fine_peek fine kind
    rw [Token.Fine, next] at token
    exact ⟨[s.peek], rest_of_kind kind, token, List.Subperm.refl _⟩
  · exact ReadsAt.expected _ fine

theorem forms_ident : Forms ident Ident.Formed := finds_ident.forms

theorem forms_scopedName : Forms scopedName ScopedName.Formed := fun s =>
  ReadsAt.here fun _ => (reads_eat _ s).bind fun _ t _ _ =>
    (forms_ident t).bind fun _ t _ first =>
    ((finds_manyAfter .colonColon finds_ident).forms t).bind fun _ _ _ more =>
    ReadsAt.spanned fun _ => List.forall_mem_cons.mpr ⟨first, more⟩

/-! Literals. -/

theorem readsAt_decoded {α : Type} (decode : List Char → Except LiteralFault α) (s : Cursor) :
    ReadsAt s (decoded decode) fun r _ => decode s.peek.lexeme.toList = .ok r.1 := by
  intro _
  obtain ⟨used, rest⟩ := bump_takes s
  rw [decoded]
  cases read : decode s.peek.lexeme.toList with
  | ok a => exact ⟨used, rest, rfl⟩
  | error e => exact ⟨used, rest⟩

theorem reads_stringRun (kind : LiteralKind) : Reads (stringRun kind) fun _ _ => True := fun s =>
  (readsAt_decoded Lexeme.string s).bind fun _ t _ _ =>
    (reads_many _ (fun t => (readsAt_decoded Lexeme.string t).weaken fun _ _ _ => trivial)
      (R := fun _ _ => True) trivial (fun _ _ _ _ _ _ => trivial) t).bind fun _ _ _ _ =>
    ReadsAt.pure trivial

theorem reads_stringLiteral : Reads stringLiteral fun _ _ => True := by
  intro s
  refine ReadsAt.test ?_
  split
  · exact (reads_stringRun .string s).bind fun _ _ _ _ => ReadsAt.pure trivial
  · exact ReadsAt.expected _

/-- A magnitude without a sign is neither negative nor no number. -/
theorem formed_of_magnitude {x : Double}
    (magnitude : ∃ m ≤ Double.infinityBits, x = Double.ofMagnitude false m) :
    x.negative = false ∧ x.isNaN = false := by
  obtain ⟨m, small, rfl⟩ := magnitude
  exact ⟨Double.negative_ofMagnitude small, Double.isNaN_ofMagnitude small⟩

theorem readsAt_literal {k : LiteralKind} (next : s.kind = .literal k) :
    ReadsAt s (literal k) fun e _ => e.Formed := by
  intro fine
  have token := fine_peek fine (by rw [next]; simp)
  have kind : s.peek.kind = .literal k := next
  rw [Token.Fine, kind] at token
  suffices reads : ReadsAt s (literal k) fun e _ => e.Formed from reads fine
  cases k with
  | decimal =>
    exact (readsAt_decoded _ s).bind fun ⟨⟨_, _⟩, _⟩ _ _ read =>
      ReadsAt.pure ⟨Lexeme.integer_lt read, rfl⟩
  | octal =>
    exact (readsAt_decoded _ s).bind fun ⟨⟨_, _⟩, _⟩ _ _ read =>
      ReadsAt.pure ⟨Lexeme.integer_lt read, rfl⟩
  | hex =>
    exact (readsAt_decoded _ s).bind fun ⟨⟨_, _⟩, _⟩ _ _ read =>
      ReadsAt.pure ⟨Lexeme.integer_lt read, rfl⟩
  | float =>
    obtain ⟨c, cs, text, first⟩ := token
    refine (readsAt_decoded _ s).bind fun ⟨_, _⟩ _ _ read => ReadsAt.pure ⟨?_, rfl⟩
    rw [text] at read
    exact formed_of_magnitude (Lexeme.float_of_numeral first read)
  | fixed =>
    obtain ⟨c, cs, text, first⟩ := token
    refine (readsAt_decoded _ s).bind fun ⟨_, _⟩ _ _ read => ReadsAt.pure ⟨?_, rfl⟩
    rw [text] at read
    exact formed_of_magnitude (Lexeme.fixed_of_numeral first read)
  | char => exact (readsAt_decoded _ s).bind fun ⟨_, _⟩ _ _ _ => ReadsAt.pure ⟨trivial, rfl⟩
  | wchar => exact (readsAt_decoded _ s).bind fun ⟨_, _⟩ _ _ _ => ReadsAt.pure ⟨trivial, rfl⟩
  | string => exact (reads_stringRun _ s).bind fun ⟨_, _⟩ _ _ _ => ReadsAt.pure ⟨trivial, rfl⟩
  | wstring => exact (reads_stringRun _ s).bind fun ⟨_, _⟩ _ _ _ => ReadsAt.pure ⟨trivial, rfl⟩

/-! Expressions. -/

theorem reads_operator (l : Level) (op : BinaryOp) (tokens : Nat) :
    Reads (operator l op tokens) fun _ _ => True := by
  intro s _
  have took : ∃ used, s.rest = used ++ (if tokens = 2 then s.bump.bump else s.bump).rest := by
    obtain ⟨used, rest⟩ := bump_takes s
    obtain ⟨more, rest'⟩ := bump_takes s.bump
    split
    · exact ⟨used ++ more, by rw [rest, rest', List.append_assoc]⟩
    · exact ⟨used, rest⟩
  obtain ⟨used, rest⟩ := took
  rw [operator]
  generalize (if tokens = 2 then s.bump.bump else s.bump) = t at rest ⊢
  dsimp only
  split
  · exact ⟨used, rest⟩
  · exact ⟨used, rest, trivial⟩

theorem formed_foldl (steps : List (BinaryOp × ConstExpr)) {first : ConstExpr}
    (formed : first.Formed) (more : ∀ step ∈ steps, step.2.Formed) :
    (steps.foldl joined first).Formed := by
  induction steps generalizing first with
  | nil => exact formed
  | cons step steps ih =>
    refine ih ⟨formed, more step (by simp), rfl⟩ fun other mem => more other (by simp [mem])

section

variable {l : Level} {operand whole : Parser ConstExpr} (operands : Forms operand ConstExpr.Formed)

include operands

theorem reads_operatorStep (level : OperatorLevel) :
    Forms (operatorStep l level operand) fun step => step.2.Formed := by
  intro s
  cases eq : level s with
  | none =>
    intro fine
    rw [operatorStep, eq]
    exact ReadsAt.expected _ fine
  | some found =>
    have reads : ReadsAt s (do
        let op ← operator l found.1 found.2
        return (op, ← operand)) fun step _ => step.2.Formed :=
      (reads_operator l found.1 found.2 s).bind fun _ t _ _ =>
        (operands t).bind fun _ _ _ formed => ReadsAt.pure formed
    intro fine
    rw [operatorStep, eq]
    exact reads fine

theorem forms_chain (level : OperatorLevel) : Forms (chain l operand level) ConstExpr.Formed :=
  fun s => (operands s).bind fun _ t _ first =>
    (forms_many _ (reads_operatorStep operands level) t).bind fun _ _ _ more =>
    ReadsAt.pure (formed_foldl _ first more)

theorem forms_binaryExpr : Forms (binaryExpr l operand) ConstExpr.Formed := by
  rw [binaryExpr]
  generalize operatorLevels l.inTemplate = levels
  induction levels generalizing operand with
  | nil => exact operands
  | cons level levels ih => exact ih (forms_chain operands level)

theorem forms_operandWith (wholes : Forms whole ConstExpr.Formed) :
    Forms (operandWith operand whole) ConstExpr.Formed := by
  intro s
  refine ReadsAt.kind ?_
  split
  · exact (reads_bump s).bind fun _ t _ _ => (operands t).bind fun _ _ _ formed =>
      ReadsAt.pure ⟨formed, rfl⟩
  · split
    · exact (forms_scopedName s).bind fun _ _ _ formed => ReadsAt.pure ⟨formed, rfl⟩
    · exact (forms_scopedName s).bind fun _ _ _ formed => ReadsAt.pure ⟨formed, rfl⟩
    · exact (reads_bump s).bind fun _ _ _ _ => ReadsAt.pure ⟨trivial, rfl⟩
    · exact (reads_bump s).bind fun _ _ _ _ => ReadsAt.pure ⟨trivial, rfl⟩
    · next k next => exact readsAt_literal next
    · exact (reads_bump.discard s).bind fun _ t _ _ => (wholes t).bind fun _ u _ formed =>
        ((reads_expect _).discard u).bind fun _ _ _ _ => ReadsAt.pure formed
    · exact ReadsAt.expected _

end

theorem forms_operand (limit left : Nat) (inTemplate : Bool) :
    Forms (operand limit left inTemplate) ConstExpr.Formed := by
  induction left generalizing inTemplate with
  | zero => exact forms_operandWith (fun _ => ReadsAt.tooDeep limit) fun _ => ReadsAt.tooDeep limit
  | succ left ih => exact forms_operandWith (ih inTemplate) (forms_binaryExpr (ih false))

theorem forms_constExpr (l : Level) : Forms (constExpr l) ConstExpr.Formed := fun s =>
  forms_binaryExpr (forms_operand l.limit l.left l.inTemplate) { s with operators := 0 }

end Idl.Grammar
