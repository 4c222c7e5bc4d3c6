import Idl.Binding.Type
import Idl.Proofs.Const.Evaluate
import Idl.Proofs.Scope.Frame
import Idl.Syntax.Type
import Mathlib.Data.List.Forall2

/-!
What a step of binding leaves behind when it reports nothing, and how steps join: what holds
throughout a type, down to the names and sizes in it and up to the types it defines in place.
Everything is said over one table `t`; the table that a step starts from has the same names and
outlines.
-/

set_option autoImplicit false

namespace Idl

/-- The names, the sizes and the fixed-point arguments of a type have a property each. -/
def TypeSpec.Every (named : NamedType → Prop) (size : ConstExpr → Prop)
    (fixed : ConstExpr → ConstExpr → Prop) : TypeSpec → Prop
  | .primitive _ => True
  | .named type => named type
  | .sequence element bound => element.Every named size fixed ∧ ∀ e ∈ bound, size e
  | .set element bound => element.Every named size fixed ∧ ∀ e ∈ bound, size e
  | .map key value bound =>
    key.Every named size fixed ∧ value.Every named size fixed ∧ ∀ e ∈ bound, size e
  | .string bound => ∀ e ∈ bound, size e
  | .wstring bound => ∀ e ∈ bound, size e
  | .fixed none => True
  | .fixed (some (digits, scale)) => fixed digits scale
  | .struct _ => True
  | .union _ => True
  | .enum _ => True
  | .bitset _ => True
  | .bitmask _ => True

namespace Binding

/-- A table over which names mean what they do over `t`, and in which no constant has failed. -/
structure Steady (t u : SymbolTable) : Prop where
  outline : SameOutline t u
  unfailed : u.Unfailed

/-- A step adds errors. Unless there are any, it keeps the table steady and its result has `R`. -/
def Binds {α : Type} (t : SymbolTable) (p : BindM α) (R : α → Prop) : Prop :=
  ∀ b, ∃ es, (p.run b).2.errors = b.errors ++ es ∧
    (es = [] → Steady t b.table → Steady t (p.run b).2.table ∧ R (p.run b).1)

/-- A step adds errors and takes none away. -/
def Grows {α : Type} (p : BindM α) : Prop := ∀ b, ∃ es, (p.run b).2.errors = b.errors ++ es

variable {t : SymbolTable} {α β : Type}

namespace Grows

theorem bind {p : BindM α} {k : α → BindM β} (first : Grows p) (second : ∀ a, Grows (k a)) :
    Grows (p >>= k) := by
  intro b
  obtain ⟨es, run⟩ := first b
  obtain ⟨es', run'⟩ := second (p.run b).1 (p.run b).2
  refine ⟨es ++ es', ?_⟩
  rw [← List.append_assoc, ← run]
  exact run'

theorem pure (a : α) : Grows (Pure.pure a) := fun b => ⟨[], (List.append_nil b.errors).symm⟩

theorem mapM {f : α → BindM β} (each : ∀ x, Grows (f x)) (xs : List α) : Grows (xs.mapM f) := by
  induction xs with
  | nil => exact pure []
  | cons x xs ih =>
    rw [List.mapM_cons]
    exact (each x).bind fun _ => ih.bind fun _ => pure _

/-- A change of the table alone. -/
theorem changeTable (f : SymbolTable → SymbolTable) :
    Grows (modify fun b : Binding => { b with table := f b.table }) :=
  fun b => ⟨[], (List.append_nil b.errors).symm⟩

end Grows

namespace Binds

variable {p : BindM α} {k : α → BindM β} {R : α → Prop} {S : β → Prop}

theorem pure {a : α} (holds : R a) : Binds t (Pure.pure a) R :=
  fun b => ⟨[], (List.append_nil b.errors).symm, fun _ steady => ⟨steady, holds⟩⟩

theorem bind (first : Binds t p R) (second : ∀ a, Binds t (k a) fun b => R a → S b) :
    Binds t (p >>= k) S := by
  intro b
  obtain ⟨es, run, claim⟩ := first b
  obtain ⟨es', run', claim'⟩ := second (p.run b).1 (p.run b).2
  refine ⟨es ++ es', ?_, fun none steady => ?_⟩
  · rw [← List.append_assoc, ← run]
    exact run'
  · obtain ⟨none, none'⟩ := List.append_eq_nil_iff.mp none
    obtain ⟨steady', holds⟩ := claim none steady
    obtain ⟨steady'', holds'⟩ := claim' none' steady'
    exact ⟨steady'', holds' holds⟩

theorem grows (binds : Binds t p R) : Grows p := by
  intro b
  obtain ⟨es, run, -⟩ := binds b
  exact ⟨es, run⟩

/-- A step that needs what the one before it has shown. -/
theorem bindWith (first : Binds t p R) (grows : ∀ a, Grows (k a))
    (second : ∀ a, R a → Binds t (k a) S) : Binds t (p >>= k) S := by
  intro b
  obtain ⟨es, run, claim⟩ := first b
  obtain ⟨es', run'⟩ := grows (p.run b).1 (p.run b).2
  refine ⟨es ++ es', ?_, fun none steady => ?_⟩
  · rw [← List.append_assoc, ← run]
    exact run'
  · obtain ⟨none, none'⟩ := List.append_eq_nil_iff.mp none
    obtain ⟨steady', holds⟩ := claim none steady
    obtain ⟨es'', run'', claim''⟩ := second _ holds (p.run b).2
    have same : es'' = es' := List.append_cancel_left (run''.symm.trans run')
    exact claim'' (same.trans none') steady'

theorem weaken {R' : α → Prop} (binds : Binds t p R) (imp : ∀ a, R a → R' a) : Binds t p R' := by
  intro b
  obtain ⟨es, run, claim⟩ := binds b
  refine ⟨es, run, fun none steady => ?_⟩
  obtain ⟨steady', holds⟩ := claim none steady
  exact ⟨steady', imp _ holds⟩

theorem map {f : α → β} (binds : Binds t p R) (imp : ∀ a, R a → S (f a)) :
    Binds t (f <$> p) S := by
  have mapped : Binds t (p >>= fun a => Pure.pure (f a)) S :=
    binds.bind fun a => Binds.pure (imp a)
  exact mapped

/-- Whatever a step returns, it has no conditions to meet. -/
theorem free (binds : Binds t p R) : Binds t p fun _ => True := binds.weaken fun _ _ => trivial

theorem report (fault : BindingFault) (span : Span) {Q : Unit → Prop} :
    Binds t (Binding.report fault span) Q :=
  fun _ => ⟨[⟨fault, span⟩], rfl, fun none => by cases none⟩

/-- A step that has reported something has nothing to show. -/
theorem reported (fault : BindingFault) (span : Span) (p : BindM α)
    (binds : Binds t p fun _ => True) : Binds t (do Binding.report fault span; p) R :=
  bind (R := fun _ => False) (report fault span) fun _ => binds.weaken fun _ _ none => none.elim

/-- What is looked up in a steady table. -/
theorem looked {f : SymbolTable → α} (holds : ∀ u, Steady t u → R (f u)) :
    Binds t (table? f) R :=
  fun b => ⟨[], (List.append_nil b.errors).symm, fun _ steady => ⟨steady, holds b.table steady⟩⟩

/-- A change of the table that keeps it steady. -/
theorem changeTable {f : SymbolTable → SymbolTable} (keeps : ∀ u, Steady t u → Steady t (f u)) :
    Binds t (modify fun b => { b with table := f b.table }) fun _ => True :=
  fun b => ⟨[], (List.append_nil b.errors).symm, fun _ steady => ⟨keeps b.table steady, trivial⟩⟩

theorem mapM {f : α → BindM β} {R : α → β → Prop} (xs : List α)
    (each : ∀ x ∈ xs, Binds t (f x) (R x)) : Binds t (xs.mapM f) (List.Forall₂ R xs) := by
  induction xs with
  | nil => exact Binds.pure List.Forall₂.nil
  | cons x xs ih =>
    rw [List.mapM_cons]
    refine (each x (by simp)).bind fun y => ?_
    refine (ih fun x mem => each x (by simp [mem])).bind fun ys => ?_
    exact Binds.pure fun rest first => List.Forall₂.cons first rest

theorem mapOption {f : α → BindM β} {R : α → β → Prop} (each : ∀ x, Binds t (f x) (R x))
    (x : Option α) : Binds t (x.mapM f) (Option.Rel R x) := by
  cases x with
  | none => exact Binds.pure Option.Rel.none
  | some x => exact (each x).map fun _ holds => Option.Rel.some holds

end Binds

theorem exists_of_forall₂ {R : α → β → Prop} {xs : List α} {ys : List β}
    (related : List.Forall₂ R xs ys) : ∀ y ∈ ys, ∃ x ∈ xs, R x y := by
  induction related with
  | nil => simp
  | cons holds _ ih =>
    intro y mem
    rcases List.mem_cons.mp mem with rfl | mem
    · exact ⟨_, by simp, holds⟩
    · obtain ⟨x, inside, holds⟩ := ih y mem
      exact ⟨x, by simp [inside], holds⟩

/-- The expression has got a value of the type. -/
def Valued (type : ConstType) (e : ConstExpr) : Prop :=
  ∃ value : ConstValue, e.value = some ⟨type, value⟩ ∧ value.HasType type

/-- What is done with the outcome of an evaluation. -/
def withOutcome (e : ConstExpr) : Except EvalError Constant → BindM (ConstExpr × Bool)
  | .ok constant => return (e.withValue (some constant), true)
  | .error error => do
    if !error.isCascade then Binding.report (.eval error.fault) error.span
    return (e, false)

theorem binds_evaluated (scope : SymbolId) (type : ConstType) (e : ConstExpr) :
    Binds t (evaluated scope type e) fun r => r.2 = true ∧ Valued type r.1 := by
  intro b
  have unfolded : (evaluated scope type e).run b =
      (withOutcome e (evaluate b.table scope type e)).run b := rfl
  rw [unfolded]
  cases value : evaluate b.table scope type e with
  | ok constant =>
    obtain ⟨typed, holds⟩ := hasType_of_evaluate value
    refine ⟨[], (List.append_nil b.errors).symm, fun _ steady => ⟨steady, rfl, constant.value, ?_,
      holds⟩⟩
    rw [← typed]
    exact e.value_withValue (some constant)
  | error error =>
    cases cascade : error.isCascade with
    | true =>
      refine ⟨[], ?_, fun _ steady => ?_⟩
      · simp only [withOutcome, cascade]
        exact (List.append_nil b.errors).symm
      rw [isCascade_of_evaluate steady.unfailed value] at cascade
      cases cascade
    | false =>
      refine ⟨[⟨.eval error.fault, error.span⟩], ?_, fun none => by cases none⟩
      simp only [withOutcome, cascade]
      rfl

theorem binds_expr (scope : SymbolId) (type : ConstType) (e : ConstExpr) :
    Binds t (expr scope type e) (Valued type) :=
  (binds_evaluated scope type e).bind fun _ => Binds.pure fun holds => holds.2

end Binding

end Idl
