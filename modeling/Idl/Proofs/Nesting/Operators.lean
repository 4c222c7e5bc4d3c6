import Idl.Grammar.Expr
import Idl.Proofs.Lockstep.Link
import Idl.Proofs.Syntax.Outline
import Mathlib

/-!
The count of operators. A reader of expressions counts the operators of two operands that it takes
in, and each one is held against the levels of nesting that are left. Main statement:
`operations_constExpr`.
-/

set_option autoImplicit false

namespace Idl.Grammar

variable {α β : Type} {left : Nat}

/-- What the reader returns goes with the number of operators that it counted. If there are any, no
more than `left` were counted with those before them. -/
def Tallies (left : Nat) (p : Parser α) (Q : α → Nat → Prop) : Prop :=
  ∀ s a t, p s = .ok a t →
    ∃ n, t.operators = s.operators + n ∧ (n = 0 ∨ t.operators ≤ left) ∧ Q a n

/-- Nothing is counted. -/
abbrev Steady (left : Nat) (p : Parser α) : Prop := Tallies left p fun _ n => n = 0

/-! Rules. -/

namespace Tallies

variable {p : Parser α} {k : α → Parser β} {Q : α → Nat → Prop} {R : β → Nat → Prop}

theorem bind (first : Tallies left p Q)
    (second : ∀ a n, Q a n → Tallies left (k a) fun b m => R b (n + m)) :
    Tallies left (p >>= k) R := by
  intro s b u read
  rw [bind_apply] at read
  cases eq : p s with
  | error e t => rw [eq] at read; cases read
  | ok a t =>
    rw [eq] at read
    obtain ⟨n, count, small, holds⟩ := first s a t eq
    obtain ⟨m, count', small', holds'⟩ := second a n holds t b u read
    exact ⟨n + m, by omega, by omega, holds'⟩

theorem pure {a : α} (holds : Q a 0) : Tallies left (Pure.pure a) Q := by
  rintro s _ _ ⟨⟩
  exact ⟨0, rfl, .inl rfl, holds⟩

theorem expected (what : String) : Tallies left (Grammar.expected what) Q := nofun

theorem tooDeep (limit : Nat) : Tallies left (Grammar.tooDeep limit) Q := nofun

theorem weaken {Q' : α → Nat → Prop} (tallies : Tallies left p Q) (imp : ∀ a n, Q a n → Q' a n) :
    Tallies left p Q' := by
  intro s a t read
  obtain ⟨n, count, small, holds⟩ := tallies s a t read
  exact ⟨n, count, small, imp a n holds⟩

theorem raise {left' : Nat} (tallies : Tallies left p Q) (le : left ≤ left') :
    Tallies left' p Q := by
  intro s a t read
  obtain ⟨n, count, small, holds⟩ := tallies s a t read
  exact ⟨n, count, small.imp_right (·.trans le), holds⟩

theorem many {f : α → Nat} {item : Parser α} (stop : Cursor → Bool)
    (tallies : Tallies left item fun a n => f a = n) :
    Tallies left (Grammar.many stop item) fun as n => (as.map f).sum = n := by
  intro s
  fun_induction Grammar.many stop item s with
  | case1 s stopped =>
    rintro _ _ ⟨⟩
    exact ⟨0, rfl, .inl rfl, rfl⟩
  | case2 s going e t failed => exact nofun
  | case3 s going a t read shorter more u rest ih =>
    rintro _ _ ⟨⟩
    obtain ⟨n, count, small, rfl⟩ := tallies s a t read
    obtain ⟨m, count', small', rfl⟩ := ih more u rest
    exact ⟨_, by omega, by omega, List.sum_cons⟩
  | case4 s going a t read shorter e u failed ih => exact nofun
  | case5 s going a t read longer =>
    rintro _ _ ⟨⟩
    obtain ⟨n, count, small, rfl⟩ := tallies s a _ read
    exact ⟨_, count, small, List.sum_singleton⟩

end Tallies

namespace Steady

variable {p : Parser α} {k : α → Parser β} {R : β → Nat → Prop}

theorem bind (first : Steady left p) (second : ∀ a, Tallies left (k a) R) :
    Tallies left (p >>= k) R :=
  Tallies.bind first fun a n none => (second a).weaken fun _ m holds => by
    rwa [none, Nat.zero_add]

theorem of_same (same : ∀ s a t, p s = .ok a t → t.operators = s.operators) : Steady left p :=
  fun s a t read => ⟨0, same s a t read, .inl rfl, rfl⟩

theorem discard (steady : Steady left p) : Steady left (discard p) :=
  steady.bind fun _ => .pure rfl

theorem many {item : Parser α} (stop : Cursor → Bool) (steady : Steady left item) :
    Steady left (Grammar.many stop item) := by
  have tallies : Tallies left item fun _ n => 0 = n := steady.weaken fun _ _ => Eq.symm
  exact (tallies.many stop).weaken fun as n sum => by simpa using sum.symm

end Steady

/-! Names and literals. -/

theorem steady_kind : Steady left kind := .of_same (by rintro s _ _ ⟨⟩; rfl)

theorem steady_here : Steady left here := .of_same (by rintro s _ _ ⟨⟩; rfl)

theorem steady_spanFrom (start : Span) : Steady left (spanFrom start) :=
  .of_same (by rintro s _ _ ⟨⟩; rfl)

theorem steady_bump : Steady left bump := .of_same (by rintro s _ _ ⟨⟩; exact operators_bump s)

theorem steady_eat (mark : Punct) : Steady left (eat mark) := by
  refine .of_same fun s a t read => ?_
  rw [eat] at read
  split at read <;> cases read
  · exact operators_bump s
  · rfl

theorem steady_expect (mark : Punct) : Steady left (expect mark) := by
  refine .of_same fun s a t read => ?_
  rw [expect] at read
  split at read <;> cases read
  exact operators_bump s

theorem steady_ident : Steady left ident := by
  refine .of_same fun s a t read => ?_
  rw [ident] at read
  split at read <;> cases read
  exact operators_bump s

theorem steady_scopedName : Steady left scopedName :=
  steady_here.bind fun _ => (steady_eat _).bind fun _ => steady_ident.bind fun _ =>
    (Steady.many _ ((steady_expect _).discard.bind fun _ => steady_ident)).bind fun _ =>
    (steady_spanFrom _).bind fun _ => .pure rfl

theorem steady_decoded (decode : List Char → Except LiteralFault α) :
    Steady left (decoded decode) := by
  refine .of_same fun s a t read => ?_
  rw [decoded] at read
  split at read <;> cases read
  exact operators_bump s

theorem steady_stringRun (k : LiteralKind) : Steady left (stringRun k) :=
  (steady_decoded _).bind fun _ => (Steady.many _ (steady_decoded _)).bind fun _ => .pure rfl

theorem tallies_literal (k : LiteralKind) :
    Tallies left (literal k) fun e n => e.operations = n := by
  cases k with
  | string | wstring => exact (steady_stringRun _).bind fun _ => .pure rfl
  | _ => exact (steady_decoded _).bind fun _ => .pure rfl

/-! Operators. -/

/-- Each operator counts, and too many are refused. -/
theorem tallies_operator (l : Level) (op : BinaryOp) (tokens : Nat) :
    Tallies l.left (operator l op tokens) fun _ n => n = 1 := by
  intro s a t read
  have same : (if tokens = 2 then s.bump.bump else s.bump).operators = s.operators := by
    split <;> simp only [operators_bump]
  rw [operator] at read
  generalize (if tokens = 2 then s.bump.bump else s.bump) = u at read same
  dsimp only at read
  split at read <;> cases read
  next room => exact ⟨1, congrArg (· + 1) same, .inr (Nat.le_of_not_lt room), rfl⟩

theorem operations_foldl_joined (first : ConstExpr) (steps : List (BinaryOp × ConstExpr)) :
    (steps.foldl joined first).operations =
      first.operations + (steps.map fun step => step.2.operations + 1).sum := by
  induction steps generalizing first with
  | nil => rfl
  | cons step steps ih =>
    rw [List.foldl_cons, ih, List.map_cons, List.sum_cons]
    change first.operations + step.2.operations + 1 + _ = _
    omega

section

variable {l : Level} {p : Parser ConstExpr}
  (operand : Tallies l.left p fun e n => e.operations = n)

include operand

theorem tallies_operatorStep (level : OperatorLevel) :
    Tallies l.left (operatorStep l level p) fun step n => step.2.operations + 1 = n := by
  intro s
  rw [operatorStep]
  cases level s with
  | none => exact nofun
  | some step =>
    have tallies : Tallies l.left (operator l step.1 step.2 >>= fun op => p >>= fun e =>
        Pure.pure (op, e)) fun step n => step.2.operations + 1 = n :=
      (tallies_operator l step.1 step.2).bind fun _ _ one => operand.bind fun e n count =>
        .pure (by rw [one, count]; exact Nat.add_comm n 1)
    exact tallies s

theorem tallies_chain (level : OperatorLevel) :
    Tallies l.left (chain l p level) fun e n => e.operations = n :=
  operand.bind fun _ _ first => (Tallies.many _ (tallies_operatorStep operand level)).bind
    fun _ _ rest => .pure (by rw [operations_foldl_joined, first, rest, Nat.add_zero])

theorem tallies_binaryExpr : Tallies l.left (binaryExpr l p) fun e n => e.operations = n := by
  rw [binaryExpr]
  generalize operatorLevels l.inTemplate = levels
  induction levels generalizing p with
  | nil => exact operand
  | cons level levels ih => exact ih (tallies_chain operand level)

end

theorem tallies_operandWith {operand whole : Parser ConstExpr}
    (inner : Tallies left operand fun e n => e.operations = n)
    (outer : Tallies left whole fun e n => e.operations = n) :
    Tallies left (operandWith operand whole) fun e n => e.operations = n := by
  refine steady_kind.bind fun next => ?_
  cases unaryOp? next with
  | some op =>
    exact steady_bump.bind fun _ => inner.bind fun _ _ count => .pure count
  | none =>
    dsimp only
    split
    · exact steady_scopedName.bind fun _ => .pure rfl
    · exact steady_scopedName.bind fun _ => .pure rfl
    · exact steady_bump.bind fun _ => .pure rfl
    · exact steady_bump.bind fun _ => .pure rfl
    · exact tallies_literal _
    · exact steady_bump.discard.bind fun _ => outer.bind fun _ _ count =>
        (steady_expect _).discard.bind fun _ => .pure count
    · exact .expected _

theorem tallies_operand (limit left : Nat) (inTemplate : Bool) :
    Tallies left (operand limit left inTemplate) fun e n => e.operations = n := by
  induction left generalizing inTemplate with
  | zero => exact tallies_operandWith (.tooDeep _) (.tooDeep _)
  | succ left ih =>
    exact tallies_operandWith ((ih inTemplate).raise (Nat.le_succ left))
      ((tallies_binaryExpr (l := ⟨limit, left, false⟩) (ih false)).raise (Nat.le_succ left))

/-- The count begins anew with each expression, so all operators in it are held against the
limit. -/
theorem operations_constExpr {l : Level} {s t : Cursor} {e : ConstExpr}
    (read : constExpr l s = .ok e t) : e.operations ≤ l.left := by
  obtain ⟨n, count, small, rfl⟩ := tallies_binaryExpr (tallies_operand l.limit l.left l.inTemplate)
    { s with operators := 0 } e t read
  dsimp only at count
  omega

end Idl.Grammar
