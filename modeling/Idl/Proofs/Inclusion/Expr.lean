import Idl.Proofs.Inclusion.Walk
import Idl.Proofs.Spans.Expr

/-!
Names, literals and constant expressions are read with nested spans. Main statement:
`adds_constExpr`.
-/

set_option autoImplicit false

namespace Idl.Grammar

variable {α : Type} {s : Cursor}

theorem takesOne_ident (s : Cursor) : TakesOne Ident.span s (ident s) := by
  rw [ident]
  split
  · next next => exact .ok (Cursor.present_of_kind (by rw [Cursor.kind, next]; decide)) rfl
  · exact .error List.suffix_rfl

theorem adds_ident : Adds ident fun i => [i.tree] := fun s => (takesOne_ident s).adds

theorem adds_scopedName : Adds scopedName fun n => [n.tree] :=
  adds_here fun _ => (mayAdd_eat _).pass fun _ => adds_ident.bind fun _ =>
    (mayAdd_manyAfter (.map Ident.tree) _ adds_ident).bind fun _ => .spanned fun _ => rfl

/-! Literals. -/

theorem AddsAt.decoded (decode : List Char → Except LiteralFault α) (present : s.rest ≠ []) :
    AddsAt s (decoded decode) fun r => [.leaf r.2] := by
  have one : TakesOne Prod.snd s (Grammar.decoded decode s) := by
    rw [Grammar.decoded]
    split
    · exact .ok present rfl
    · exact .error s.places_bump
  exact one.adds

/-- Pieces in a row are one literal. -/
theorem arranged_pieces {lo hi : Nat} {xs : List SpanTree} (span : Span)
    (more : List (List Char × Span))
    (arranged : Arranged lo hi (xs ++ .leaf span :: more.map fun m => .leaf m.2)) :
    Arranged lo hi (xs ++ [.leaf (more.foldl (fun span m => span.join m.2) span)]) := by
  induction more generalizing span with
  | nil => exact arranged
  | cons m more ih => exact ih _ (arranged.merge [] (List.forall_mem_nil _))

theorem AddsAt.stringRun {kind : LiteralKind} (present : s.rest ≠ []) :
    AddsAt s (stringRun kind) fun r => [.leaf r.2] := by
  refine fun _ _ _ => (AddsAt.decoded _ present).bind fun first =>
    (mayAdd_manyWhile (.map fun m => .leaf m.2) _ fun s next => ?_).bind fun more =>
    .regroup (fun lo hi arranged => arranged_pieces first.2 more ?_) (.pure rfl)
  · have literal : s.kind = .literal kind := by simpa using next
    exact .decoded _ (Cursor.present_of_kind (by rw [literal]; nofun))
  · rwa [List.append_assoc] at arranged

theorem adds_stringLiteral : Adds stringLiteral fun _ => [] := by
  intro s start i pre
  refine .test ?_
  split
  · next next =>
    have literal : s.kind = .literal .string := by simpa using next
    exact (AddsAt.stringRun (Cursor.present_of_kind (by rw [literal]; nofun))).bind fun _ =>
      .drop (.pure (List.append_nil _).symm)
  · exact .expected _

theorem AddsAt.literal {k : LiteralKind} (present : s.rest ≠ []) :
    AddsAt s (literal k) fun e => [e.tree] := by
  intro start i pre
  cases k with
  | decimal => exact (AddsAt.decoded _ present).bind fun _ => .pure rfl
  | octal => exact (AddsAt.decoded _ present).bind fun _ => .pure rfl
  | hex => exact (AddsAt.decoded _ present).bind fun _ => .pure rfl
  | float => exact (AddsAt.decoded _ present).bind fun _ => .pure rfl
  | fixed => exact (AddsAt.decoded _ present).bind fun _ => .pure rfl
  | char => exact (AddsAt.decoded _ present).bind fun _ => .pure rfl
  | wchar => exact (AddsAt.decoded _ present).bind fun _ => .pure rfl
  | string => exact (AddsAt.stringRun present).bind fun _ => .pure rfl
  | wstring => exact (AddsAt.stringRun present).bind fun _ => .pure rfl

/-! Operators. -/

theorem AddsAt.operator (l : Level) (op : BinaryOp) {n : Nat} (present : s.rest ≠ []) :
    AddsAt s (operator l op n) fun _ => [] := by
  intro start i pre stretch
  have taken : (if n = 2 then s.bump.bump else s.bump).places <:+ s.bump.places := by
    split
    · exact s.bump.places_bump
    · exact List.suffix_rfl
  rw [Grammar.operator]
  generalize (if n = 2 then s.bump.bump else s.bump) = t at taken
  have suffix : t.places <:+ s.places := taken.trans s.places_bump
  dsimp only
  split
  · exact .error suffix
  · have passed := (stretch.pass present).onward taken
    exact .ok (List.append_nil _).symm suffix
      ⟨passed.ordered, passed.ahead, passed.behind, passed.arranged⟩

/-- Operands in a row are one expression. -/
theorem arranged_joined {lo hi : Nat} {xs : List SpanTree} (first : ConstExpr)
    (steps : List (BinaryOp × ConstExpr))
    (arranged : Arranged lo hi (xs ++ first.tree :: steps.map fun step => step.2.tree)) :
    Arranged lo hi (xs ++ [(steps.foldl joined first).tree]) := by
  induction steps generalizing first with
  | nil => exact arranged
  | cons step steps ih =>
    -- the operators of a level group to the left, so the two trees in front become one
    have merged := arranged.merge [[first.tree, step.2.tree]]
      (List.forall_mem_singleton.mpr (List.Sublist.refl _))
    rw [ConstExpr.span_tree, ConstExpr.span_tree] at merged
    exact ih (joined first step) merged

section

variable {p : Parser ConstExpr} (operand : Adds p fun e => [e.tree])

include operand

theorem AddsAt.operatorStep (l : Level) {level : OperatorLevel} (present : level.Present)
    (going : (level s).isNone = false) :
    AddsAt s (operatorStep l level p) fun step => [step.2.tree] := by
  intro start i pre stretch
  rw [Grammar.operatorStep]
  cases found : level s with
  | none => rw [found] at going; cases going
  | some step =>
    obtain ⟨op, n⟩ := step
    exact (AddsAt.operator l op (n := n) (present found)).pass
      (R := fun r : BinaryOp × ConstExpr => fun row => row = pre ++ [r.2.tree])
      (fun _ => operand.bind fun _ => .pure rfl) stretch

theorem adds_chain (l : Level) {level : OperatorLevel} (present : level.Present) :
    Adds (chain l p level) fun e => [e.tree] := by
  refine .of fun _ _ _ => operand.bind fun first => (mayAdd_manyWhile
    (.map fun step => step.2.tree) _ fun s going => .operatorStep operand l present going).bind
    fun steps => .regroup (fun lo hi arranged => arranged_joined first steps ?_) (.pure rfl)
  rwa [List.append_assoc] at arranged

theorem adds_binaryExpr (l : Level) : Adds (binaryExpr l p) fun e => [e.tree] := by
  have present := present_operatorLevels l.inTemplate
  rw [binaryExpr]
  generalize operatorLevels l.inTemplate = levels at present ⊢
  induction levels generalizing p with
  | nil => exact operand
  | cons level levels ih =>
    rw [List.forall_mem_cons] at present
    exact ih (adds_chain operand l present.1) present.2

end

theorem adds_operandWith {operand whole : Parser ConstExpr} (inner : Adds operand fun e => [e.tree])
    (outer : Adds whole fun e => [e.tree]) :
    Adds (operandWith operand whole) fun e => [e.tree] := by
  intro s start i pre
  refine .kind ?_
  cases unary : unaryOp? s.kind with
  | some op =>
    have present := Cursor.present_of_kind (present_of_unaryOp? unary)
    exact ((takesOne_bump present).opens (f := fun e : ConstExpr => [e.tree]) fun t =>
      inner.bind fun e => .cover (.pure (by rw [ConstExpr.span_tree]; rfl))).last
  | none =>
    have name : AddsAt s (do
        let n ← scopedName
        return ConstExpr.name n n.span none) fun e => [e.tree] :=
      fun _ _ _ => (adds_scopedName s).bind fun n => .regroup (fun _ _ => Arranged.wrap) (.pure rfl)
    dsimp only
    split
    · exact name.last
    · exact name.last
    · next next =>
      exact (AddsAt.bump (Cursor.present_of_kind (by rw [next]; decide))).bind fun _ => .pure rfl
    · next next =>
      exact (AddsAt.bump (Cursor.present_of_kind (by rw [next]; decide))).bind fun _ => .pure rfl
    · next k next =>
      exact (AddsAt.literal (Cursor.present_of_kind (by rw [next]; nofun))).last
    · next next =>
      exact (AddsAt.bump (Cursor.present_of_kind (by rw [next]; decide))).discard.pass fun _ =>
        outer.bind fun _ => (adds_expect _).discard.pass fun _ => .pure rfl
    · exact .expected _

theorem adds_operand (limit left : Nat) (inTemplate : Bool) :
    Adds (operand limit left inTemplate) fun e => [e.tree] := by
  induction left generalizing inTemplate with
  | zero => exact adds_operandWith (adds_tooDeep _) (adds_tooDeep _)
  | succ left ih => exact adds_operandWith (ih inTemplate) (adds_binaryExpr (ih false) _)

theorem adds_constExpr (l : Level) : Adds (constExpr l) fun e => [e.tree] := by
  intro s start i pre
  refine ExtendsAt.bind (Q := fun _ row => row = pre) (m := i) ?_ fun _ _ eq =>
    eq ▸ (adds_binaryExpr (adds_operand _ _ _) l).last
  exact fun stretch => .ok rfl List.suffix_rfl
    ⟨stretch.ordered, stretch.ahead, stretch.behind, stretch.arranged⟩

end Idl.Grammar
