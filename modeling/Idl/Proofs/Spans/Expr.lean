import Idl.Grammar.Expr
import Idl.Proofs.Spans.Placed
import Idl.Proofs.Spans.Walk

/-!
Names, literals and constant expressions are read with good places. Main statement:
`places_constExpr`.
-/

set_option autoImplicit false

namespace Idl.Grammar

variable {α : Type} {P : Span → Prop} {i : Bool} {s : Cursor}

theorem places_ident : Places P i true ident (Ident.Placed P) := by
  intro s good
  rw [ident]
  split
  · next next =>
    exact .ok good.peek (good.take (Cursor.present_of_kind (by rw [Cursor.kind, next]; decide)))
  · exact .error good.peek good

theorem PlacesAt.decoded (decode : List Char → Except LiteralFault α) (present : s.kind ≠ .eof) :
    PlacesAt P i true s (decoded decode) fun r => P r.2 := by
  intro good
  rw [Grammar.decoded]
  split
  · exact .ok good.peek (good.take (Cursor.present_of_kind present))
  · exact .error good.peek good.bump

theorem places_operator (l : Level) (op : BinaryOp) {n : Nat} (present : s.rest ≠ []) :
    PlacesAt P i true s (operator l op n) fun _ => True := by
  intro good
  have taken : Good P true (if n = 2 then s.bump.bump else s.bump) := by
    split
    · exact (good.take present).bump
    · exact good.take present
  rw [operator]
  generalize (if n = 2 then s.bump.bump else s.bump) = t at taken
  have counted : Good P true { t with operators := t.operators + 1 } :=
    ⟨taken.rest, taken.ending, taken.errors, taken.previous⟩
  dsimp only
  split
  · exact .error (taken.previous rfl) (counted.weaken i)
  · exact .ok trivial counted

/-- Where an operator of a level is next, there is a token. -/
def OperatorLevel.Present (level : OperatorLevel) : Prop :=
  ∀ {s : Cursor} {step : BinaryOp × Nat}, level s = some step → s.rest ≠ []

theorem present_oneMark (mark : Punct) (op : BinaryOp) : (oneMark mark op).Present := by
  intro s step found
  rw [oneMark] at found
  split at found
  · next next => exact present_of_at? next
  · cases found

theorem present_eitherLevel {a b : OperatorLevel} (first : a.Present) (second : b.Present) :
    (eitherLevel a b).Present := by
  intro s step found
  rw [eitherLevel] at found
  cases eq : a s with
  | none => rw [eq] at found; exact second found
  | some other => exact first eq

theorem present_shiftLevel (inTemplate : Bool) : (shiftLevel inTemplate).Present := by
  intro s step found
  refine Cursor.present_of_kind fun none => ?_
  have none : (s.nth 0).kind = .eof := none
  simp [shiftLevel, none] at found

theorem present_operatorLevels (inTemplate : Bool) :
    ∀ level ∈ operatorLevels inTemplate, level.Present := by
  simp only [operatorLevels, List.forall_mem_cons]
  exact ⟨present_eitherLevel (present_oneMark _ _)
      (present_eitherLevel (present_oneMark _ _) (present_oneMark _ _)),
    present_eitherLevel (present_oneMark _ _) (present_oneMark _ _), present_shiftLevel inTemplate,
    present_oneMark _ _, present_oneMark _ _, present_oneMark _ _, by simp⟩

theorem PlacesAt.operatorStep {p : Parser ConstExpr}
    (operand : ∀ i, Places P i true p (ConstExpr.Placed P)) (l : Level) {level : OperatorLevel}
    (present : level.Present) (going : (level s).isNone = false) :
    PlacesAt P i true s (operatorStep l level p) fun step => step.2.Placed P := by
  intro good
  rw [Grammar.operatorStep]
  cases found : level s with
  | none => rw [found] at going; cases going
  | some step =>
    obtain ⟨op, n⟩ := step
    have first := places_operator (P := P) (i := i) l op (n := n) (present found)
    exact first.bind (R := fun r : BinaryOp × ConstExpr => r.2.Placed P) (fun _ _ =>
      (operand true).bind fun _ placed => .pure placed) good

theorem present_of_unaryOp? {k : TokenKind} {op : UnaryOp} (found : unaryOp? k = some op) :
    k ≠ .eof := by
  rintro rfl
  cases found

section

variable (join : ∀ a b, P a → P b → P (a.join b))

include join

theorem places_scopedName : Places P i true scopedName fun n => P n.span :=
  .here fun _ start => (places_eat _).seek fun _ _ => places_ident.bind fun _ _ =>
    (places_manyAfter _ places_ident).bind fun _ _ => .spanned join start fun _ place => place

theorem PlacesAt.stringRun {kind : LiteralKind} (present : s.kind ≠ .eof) :
    PlacesAt P i true s (stringRun kind) fun r => P r.2 := by
  refine (PlacesAt.decoded _ present).bind fun first start =>
    (places_manyWhile (Q := fun r => P r.2) _ fun s next => ?_).bind fun more all => .pure ?_
  · have literal : s.kind = .literal kind := by simpa using next
    exact PlacesAt.decoded _ (by rw [literal]; nofun)
  · -- the places of all pieces joined
    dsimp only
    generalize first.2 = span at start
    induction more generalizing span with
    | nil => exact start
    | cons m more ih =>
      rw [List.forall_mem_cons] at all
      exact ih all.2 _ (join _ _ start all.1)

theorem places_stringLiteral : Places P i true stringLiteral fun _ => True := by
  intro s
  refine .test ?_
  split
  · next next =>
    have literal : s.kind = .literal .string := by simpa using next
    exact (PlacesAt.stringRun join (by rw [literal]; nofun)).bind fun _ _ => .pure trivial
  · exact .expected _

theorem PlacesAt.literal {k : LiteralKind} (next : s.kind = .literal k) :
    PlacesAt P i true s (literal k) (ConstExpr.Placed P) := by
  have present : s.kind ≠ .eof := by rw [next]; nofun
  cases k with
  | decimal => exact (PlacesAt.decoded _ present).bind fun _ place => .pure place
  | octal => exact (PlacesAt.decoded _ present).bind fun _ place => .pure place
  | hex => exact (PlacesAt.decoded _ present).bind fun _ place => .pure place
  | float => exact (PlacesAt.decoded _ present).bind fun _ place => .pure place
  | fixed => exact (PlacesAt.decoded _ present).bind fun _ place => .pure place
  | char => exact (PlacesAt.decoded _ present).bind fun _ place => .pure place
  | wchar => exact (PlacesAt.decoded _ present).bind fun _ place => .pure place
  | string => exact (PlacesAt.stringRun join present).bind fun _ place => .pure place
  | wstring => exact (PlacesAt.stringRun join present).bind fun _ place => .pure place

theorem placed_joined {left : ConstExpr} {step : BinaryOp × ConstExpr} (first : left.Placed P)
    (second : step.2.Placed P) : (joined left step).Placed P :=
  ⟨first, second, join _ _ first.span second.span⟩

section

variable {p : Parser ConstExpr} (operand : ∀ i, Places P i true p (ConstExpr.Placed P))

include operand

theorem places_chain (l : Level) {level : OperatorLevel} (present : level.Present) (i : Bool) :
    Places P i true (chain l p level) (ConstExpr.Placed P) := by
  refine (operand i).bind fun first placed =>
    (places_manyWhile _ fun s going => PlacesAt.operatorStep operand l present going).bind
      fun steps all => .pure ?_
  induction steps generalizing first with
  | nil => exact placed
  | cons step steps ih =>
    rw [List.forall_mem_cons] at all
    exact ih _ (placed_joined join placed all.1) all.2

theorem places_binaryExpr (l : Level) (i : Bool) :
    Places P i true (binaryExpr l p) (ConstExpr.Placed P) := by
  have present := present_operatorLevels l.inTemplate
  rw [binaryExpr]
  generalize operatorLevels l.inTemplate = levels at present ⊢
  induction levels generalizing p with
  | nil => exact operand i
  | cons level levels ih =>
    rw [List.forall_mem_cons] at present
    exact ih (places_chain join operand l present.1) present.2

end

theorem places_operandWith {operand whole : Parser ConstExpr}
    (inner : ∀ i, Places P i true operand (ConstExpr.Placed P))
    (outer : ∀ i, Places P i true whole (ConstExpr.Placed P)) (i : Bool) :
    Places P i true (operandWith operand whole) (ConstExpr.Placed P) := by
  intro s
  refine .kind ?_
  cases unary : unaryOp? s.kind with
  | some op =>
    exact (PlacesAt.bump (present_of_unaryOp? unary)).bind fun _ start =>
      (inner _).bind fun _ placed => .pure ⟨placed, join _ _ start placed.span⟩
  | none =>
    dsimp only
    split
    · exact (places_scopedName join s).bind fun _ place => .pure place
    · exact (places_scopedName join s).bind fun _ place => .pure place
    · next next => exact (PlacesAt.bump (by rw [next]; decide)).bind fun _ place => .pure place
    · next next => exact (PlacesAt.bump (by rw [next]; decide)).bind fun _ place => .pure place
    · next k next => exact .literal join next
    · next next =>
      exact (PlacesAt.bump (by rw [next]; decide)).discard.bind fun _ _ =>
        (outer _).bind fun _ placed => (places_expect _).discard.bind fun _ _ => .pure placed
    · exact .expected _

theorem places_operand (limit left : Nat) (inTemplate : Bool) (i : Bool) :
    Places P i true (operand limit left inTemplate) (ConstExpr.Placed P) := by
  induction left generalizing inTemplate i with
  | zero => exact places_operandWith join (fun _ => .tooDeep _) (fun _ => .tooDeep _) i
  | succ left ih =>
    exact places_operandWith join (ih inTemplate) (places_binaryExpr join (ih false) _) i

theorem places_constExpr (l : Level) : Places P i true (constExpr l) (ConstExpr.Placed P) := by
  intro s good
  exact places_binaryExpr join (places_operand join _ _ _) l i { s with operators := 0 }
    ⟨good.rest, good.ending, good.errors, good.previous⟩

end

end Idl.Grammar
