import Idl.Proofs.Nesting.Operators
import Idl.Proofs.Progress.Walk
import Idl.Proofs.Spans.Expr

/-!
Names, literals and constant expressions take tokens, and expressions nest no deeper than they may.
Main statement: `spends_constExpr`.
-/

set_option autoImplicit false

namespace Idl.Grammar

variable {α : Type} {i : Bool} {s : Cursor}

theorem spends_ident : Spends i true ident fun _ => True := by
  intro s
  rw [SpendsAt, ident]
  split
  · next next =>
    have present : s.rest ≠ [] := Cursor.present_of_kind (by rw [Cursor.kind, next]; decide)
    exact .ok trivial (.take i present) fun _ => .inr (List.cons_ne_nil _ _)
  · exact .error (.refl i s) trivial

theorem spends_scopedName : Spends i true scopedName fun _ => True :=
  .here fun _ => (spends_eat _).seek fun _ _ => spends_ident.bind fun _ _ =>
    (spends_manyAfter _ spends_ident).bind fun _ _ => .spanned fun _ => trivial

/-! Literals. -/

/-- The reader decodes literals of the kind. -/
def Decodes (k : LiteralKind) (decode : List Char → Except LiteralFault α) : Prop :=
  ∀ cs reason, decode cs = .error reason → Lexeme.fault? k cs = some reason

theorem SpendsAt.decoded {k : LiteralKind} {decode : List Char → Except LiteralFault α}
    (decodes : Decodes k decode) (next : s.kind = .literal k) :
    SpendsAt i true s (decoded decode) fun _ => True := by
  have present : s.rest ≠ [] := Cursor.present_of_kind (by rw [next]; nofun)
  rw [SpendsAt, Grammar.decoded]
  split
  · exact .ok trivial (.take i present) fun _ => .inr (List.cons_ne_nil _ _)
  · next reason failed =>
    exact .error (.take i present) ⟨List.mem_cons_self, k, next, decodes _ reason failed⟩

theorem decodes_integer {k : LiteralKind} (integer : k = .decimal ∨ k = .octal ∨ k = .hex) :
    Decodes k (Lexeme.integer k) := by
  intro cs reason failed
  rcases integer with rfl | rfl | rfl <;> rw [Lexeme.fault?, failed] <;> rfl

theorem decodes_float : Decodes .float Lexeme.float := fun cs reason failed => by
  rw [Lexeme.fault?, failed]
  rfl

theorem decodes_fixed : Decodes .fixed Lexeme.fixed := fun cs reason failed => by
  rw [Lexeme.fault?, failed]
  rfl

theorem decodes_char {k : LiteralKind} (char : k = .char ∨ k = .wchar) :
    Decodes k Lexeme.char := by
  intro cs reason failed
  rcases char with rfl | rfl <;> rw [Lexeme.fault?, failed] <;> rfl

theorem decodes_string {k : LiteralKind} (string : k = .string ∨ k = .wstring) :
    Decodes k Lexeme.string := by
  intro cs reason failed
  rcases string with rfl | rfl <;> rw [Lexeme.fault?, failed] <;> rfl

theorem SpendsAt.stringRun {k : LiteralKind} (string : k = .string ∨ k = .wstring)
    (next : s.kind = .literal k) : SpendsAt i true s (stringRun k) fun _ => True :=
  (SpendsAt.decoded (decodes_string string) next).bind fun _ _ =>
    (spends_manyWhile _ fun _ next =>
      SpendsAt.decoded (decodes_string string) (by simpa using next)).bind fun _ _ => .pure trivial

theorem spends_stringLiteral : Spends i true stringLiteral fun _ => True := by
  intro s
  refine .test ?_
  split
  · next next =>
    exact (SpendsAt.stringRun (.inl rfl) (by simpa using next)).bind fun _ _ => .pure trivial
  · exact .expected _

theorem SpendsAt.literal {k : LiteralKind} (next : s.kind = .literal k) :
    SpendsAt i true s (literal k) fun e => e.signs = 0 := by
  cases k with
  | decimal => exact (SpendsAt.decoded (decodes_integer (by simp)) next).bind fun _ _ => .pure rfl
  | octal => exact (SpendsAt.decoded (decodes_integer (by simp)) next).bind fun _ _ => .pure rfl
  | hex => exact (SpendsAt.decoded (decodes_integer (by simp)) next).bind fun _ _ => .pure rfl
  | float => exact (SpendsAt.decoded decodes_float next).bind fun _ _ => .pure rfl
  | fixed => exact (SpendsAt.decoded decodes_fixed next).bind fun _ _ => .pure rfl
  | char => exact (SpendsAt.decoded (decodes_char (.inl rfl)) next).bind fun _ _ => .pure rfl
  | wchar => exact (SpendsAt.decoded (decodes_char (.inr rfl)) next).bind fun _ _ => .pure rfl
  | string => exact (SpendsAt.stringRun (.inl rfl) next).bind fun _ _ => .pure rfl
  | wstring => exact (SpendsAt.stringRun (.inr rfl) next).bind fun _ _ => .pure rfl

/-! Operators. -/

theorem spends_operator (l : Level) (op : BinaryOp) {n : Nat} (present : s.rest ≠ []) :
    SpendsAt i true s (operator l op n) fun _ => True := by
  obtain ⟨used, spent, some⟩ : ∃ used,
      Spent i s (if n = 2 then s.bump.bump else s.bump) used [] ∧ used ≠ [] := by
    have taken := Spent.take i present
    split
    · obtain ⟨more, rest⟩ := bump_takes s.bump
      exact ⟨_, taken.pass rest (errors_bump _), by simp⟩
    · exact ⟨_, taken, List.cons_ne_nil _ _⟩
  rw [SpendsAt, operator]
  generalize (if n = 2 then s.bump.bump else s.bump) = t at spent
  have counted : Spent i s { t with operators := t.operators + 1 } used [] :=
    ⟨spent.rest, spent.errors, spent.count, spent.blames⟩
  dsimp only
  split
  · exact .error counted trivial
  · exact .ok trivial counted fun _ => .inr some

theorem signs_joined {n : Nat} {left : ConstExpr} {step : BinaryOp × ConstExpr}
    (first : left.signs ≤ n) (second : step.2.signs ≤ n) : (joined left step).signs ≤ n :=
  Nat.max_le.mpr ⟨first, second⟩

section

variable {n : Nat} {p : Parser ConstExpr} (operand : ∀ i, Spends i true p fun e => e.signs ≤ n)

include operand

theorem SpendsAt.operatorStep (l : Level) {level : OperatorLevel} (present : level.Present)
    (going : (level s).isNone = false) :
    SpendsAt i true s (operatorStep l level p) fun step => step.2.signs ≤ n := by
  rw [SpendsAt, Grammar.operatorStep]
  cases found : level s with
  | none => rw [found] at going; cases going
  | some step =>
    obtain ⟨op, m⟩ := step
    exact (spends_operator l op (n := m) (present found)).bind
      (R := fun r : BinaryOp × ConstExpr => r.2.signs ≤ n) fun _ _ =>
        (operand true).bind fun _ signs => .pure signs

theorem spends_chain (l : Level) {level : OperatorLevel} (present : level.Present) (i : Bool) :
    Spends i true (chain l p level) fun e => e.signs ≤ n := by
  refine (operand i).bind fun first signs => (spends_manyWhile _ fun s going =>
    SpendsAt.operatorStep operand l present going).bind fun steps all => .pure ?_
  induction steps generalizing first with
  | nil => exact signs
  | cons step steps ih =>
    rw [List.forall_mem_cons] at all
    exact ih _ (signs_joined signs all.1) all.2

theorem spends_binaryExpr (l : Level) (i : Bool) :
    Spends i true (binaryExpr l p) fun e => e.signs ≤ n := by
  have present := present_operatorLevels l.inTemplate
  rw [binaryExpr]
  generalize operatorLevels l.inTemplate = levels at present ⊢
  induction levels generalizing p with
  | nil => exact operand i
  | cons level levels ih =>
    rw [List.forall_mem_cons] at present
    exact ih (spends_chain operand l present.1) present.2

end

/-- An operator in front takes one level, and parentheses take none of their own. -/
theorem spends_operandWith {n : Nat} {operand whole : Parser ConstExpr}
    (inner : ∀ i, Spends i true operand fun e => e.signs < n)
    (outer : ∀ i, Spends i true whole fun e => e.signs ≤ n) (i : Bool) :
    Spends i true (operandWith operand whole) fun e => e.signs ≤ n := by
  intro s
  refine .kind ?_
  cases unary : unaryOp? s.kind with
  | some op =>
    exact (SpendsAt.bump (present_of_unaryOp? unary)).bind fun _ _ =>
      (inner _).bind fun _ signs => .pure signs
  | none =>
    dsimp only
    split
    · exact (spends_scopedName s).bind fun _ _ => .pure (Nat.zero_le n)
    · exact (spends_scopedName s).bind fun _ _ => .pure (Nat.zero_le n)
    · next next =>
      exact (SpendsAt.bump (by rw [next]; decide)).bind fun _ _ => .pure (Nat.zero_le n)
    · next next =>
      exact (SpendsAt.bump (by rw [next]; decide)).bind fun _ _ => .pure (Nat.zero_le n)
    · next k next =>
      exact (SpendsAt.literal next).weaken fun _ none => none.trans_le (Nat.zero_le n)
    · next next =>
      exact (SpendsAt.bump (by rw [next]; decide)).discard.bind fun _ _ =>
        (outer _).bind fun _ signs => (spends_expect _).discard.bind fun _ _ => .pure signs
    · exact .expected _

theorem spends_operand (limit left : Nat) (inTemplate : Bool) (i : Bool) :
    Spends i true (operand limit left inTemplate) fun e => e.signs ≤ left := by
  induction left generalizing inTemplate i with
  | zero => exact spends_operandWith (fun _ => .tooDeep _) (fun _ => .tooDeep _) i
  | succ left ih =>
    refine spends_operandWith (fun i => (ih inTemplate i).weaken fun _ => Nat.lt_succ_of_le)
      (fun i => ?_) i
    exact (spends_binaryExpr (ih false) _ i).weaken fun _ => Nat.le_succ_of_le

theorem spends_constExpr (l : Level) :
    Spends i true (constExpr l) fun e => (Outline.expr e).Within l.left := by
  refine Spends.and (fun s => ?_) fun s e t read => operations_constExpr read
  -- to set the count back spends nothing
  have reset : Spent i s { s with operators := 0 } [] [] :=
    ⟨rfl, (List.append_nil _).symm, Nat.zero_le _, List.forall_mem_nil _⟩
  exact (spends_binaryExpr (spends_operand l.limit l.left l.inTemplate) l i _).after reset .inl

end Idl.Grammar
