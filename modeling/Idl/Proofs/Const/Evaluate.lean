import Idl.Const.Eval

/-!
What evaluation gives: a value of the type it was asked for, and over a table without failed
constants no error that only follows from another one. Main statements: `hasType_of_evaluate` and
`isCascade_of_evaluate`.
-/

set_option autoImplicit false

namespace Idl

open Eval

/-- The value has the form that the type calls for; an integer may still be out of range. -/
def ConstValue.Fits : ConstValue → ConstType → Prop
  | .int _, .integer _ => True
  | value, type => value.HasType type

namespace Eval.Context

variable {c : Context}

theorem fits_of_convert {value result : ConstValue}
    (converts : c.convert? value = some (.ok result)) : result.Fits c.type := by
  unfold convert? at converts
  split at converts
  · next v k type =>
    rw [operand] at converts
    split at converts
    · cases converts
      rw [type]
      trivial
    · cases converts
  all_goals try (cases converts; next type => rw [type]; trivial)
  · next e ordinal name id type =>
    split at converts
    · next same =>
      cases converts
      rw [type]
      exact same
    · cases converts
  · cases converts

theorem fits_of_literal {l : Literal} {result : ConstValue} (value : c.literal l = .ok result) :
    result.Fits c.type := by
  rw [literal] at value
  split at value
  · next converted eq => exact fits_of_convert (eq.trans (congrArg some value))
  · cases value

theorem fits_of_name {n : ScopedName} {result : ConstValue} (value : c.name n = .ok result) :
    result.Fits c.type := by
  rw [name] at value
  cases constant : c.constant n with
  | error fault =>
    rw [constant] at value
    cases value
  | ok k =>
    rw [constant] at value
    simp only [bind, Except.bind] at value
    split at value
    · next converted eq => exact fits_of_convert (eq.trans (congrArg some value))
    · cases value

theorem type_of_intKind {op : String} {k : IntKind} (kind : c.intKind op = .ok k) :
    c.type = .integer k := by
  rw [intKind] at kind
  split at kind
  · next type => cases kind; exact type
  · cases kind

/-- A computed integer belongs to a context of integers. -/
theorem fits_of_computed (op : String) {f : IntKind → Except EvalFault Int} {result : ConstValue}
    (value : (do return ConstValue.int (← f (← c.intKind op))) = Except.ok result) :
    result.Fits c.type := by
  cases kind : c.intKind op with
  | error fault =>
    rw [kind] at value
    cases value
  | ok k =>
    rw [kind] at value
    rw [type_of_intKind kind]
    cases computed : f k with
    | error fault =>
      simp only [bind, Except.bind, computed] at value
      cases value
    | ok v =>
      simp only [bind, Except.bind, computed, pure, Except.pure] at value
      cases value
      trivial

theorem fits_of_unary {op : UnaryOp} {operand result : ConstValue} (fits : operand.Fits c.type)
    (value : c.unary op operand = .ok result) : result.Fits c.type := by
  unfold unary at value
  split at value
  · cases value; exact fits
  · cases value; exact fits
  · cases value; exact fits
  · next v => exact fits_of_computed _ (f := fun k => k.result (IntKind.wide? (-v))) value
  · cases value
    generalize c.type = type at fits ⊢
    cases type <;> trivial
  · cases value
    generalize c.type = type at fits ⊢
    cases type <;> trivial
  · next v => exact fits_of_computed _ (f := fun k => k.result (some (k.complement v))) value
  · cases value

theorem fits_of_binary {op : BinaryOp} {left right result : ConstValue}
    (fits : left.Fits c.type) (value : c.binary op left right = .ok result) :
    result.Fits c.type := by
  unfold binary at value
  split at value
  · next a b =>
    refine fits_of_computed op.text (f := fun k => do k.result (← k.binary op a b)) ?_
    rw [← value]
    simp
  · next a b =>
    cases computed : doubleBinary op a b with
    | error fault => rw [computed] at value; cases value
    | ok x =>
      rw [computed] at value
      cases value
      generalize c.type = type at fits ⊢
      cases type <;> trivial
  · next a b =>
    cases computed : doubleBinary op a b with
    | error fault => rw [computed] at value; cases value
    | ok x =>
      rw [computed] at value
      cases value
      generalize c.type = type at fits ⊢
      cases type <;> trivial
  · cases value

/-- A step that is placed succeeds where the step does. -/
theorem ok_of_mapError {α : Type} {x : Except EvalFault α} {span : Span} {a : α}
    (value : x.mapError (⟨·, span⟩ : EvalFault → EvalError) = .ok a) : x = .ok a := by
  cases x with
  | error fault => cases value
  | ok b => cases value; rfl

theorem fits_of_eval (e : ConstExpr) {result : ConstValue} (value : c.eval e = .ok result) :
    result.Fits c.type := by
  induction e generalizing result with
  | literal l span _ =>
    rw [eval] at value
    exact fits_of_literal (ok_of_mapError value)
  | name n span _ =>
    rw [eval] at value
    exact fits_of_name (ok_of_mapError value)
  | unary op operand span _ ih =>
    rw [eval] at value
    cases inner : c.eval operand with
    | error fault => rw [inner] at value; cases value
    | ok v =>
      rw [inner] at value
      exact fits_of_unary (ih inner) (ok_of_mapError value)
  | binary op left right span _ ihl ihr =>
    rw [eval] at value
    cases first : c.eval left with
    | error fault => rw [first] at value; cases value
    | ok a =>
      cases second : c.eval right with
      | error fault => rw [first, second] at value; cases value
      | ok b =>
        rw [first, second] at value
        exact fits_of_binary (ihl first) (ok_of_mapError value)

end Eval.Context

/-- A constant has the type it was evaluated as. -/
theorem hasType_of_evaluate {t : SymbolTable} {scope : SymbolId} {type : ConstType}
    {e : ConstExpr} {constant : Constant} (value : evaluate t scope type e = .ok constant) :
    constant.type = type ∧ constant.value.HasType type := by
  rw [evaluate] at value
  cases computed : (⟨t, scope, type⟩ : Context).eval e with
  | error fault => simp only [computed, bind, Except.bind] at value; cases value
  | ok v =>
    have fits := Context.fits_of_eval e computed
    simp only [computed, bind, Except.bind] at value
    split at value
    · next k i =>
      split at value
      · next inside =>
        cases value
        exact ⟨rfl, (k.contains_iff i).mp inside⟩
      · cases value
    · next outside =>
      cases value
      refine ⟨rfl, ?_⟩
      unfold ConstValue.Fits at fits
      split at fits
      · next v k same => exact (outside k v same rfl).elim
      · exact fits

/-! Errors that follow from others. -/

/-- No constant of the table has failed. -/
def SymbolTable.Unfailed (t : SymbolTable) : Prop := ∀ id, (t.symbol id).constant ≠ .failed

/-- The fault does not lie with a constant that failed before. -/
def EvalFault.IsOwn : EvalFault → Prop
  | .poisoned _ => False
  | _ => True

namespace Eval.Context

variable {c : Context}

theorem isOwn_of_operand {k : IntKind} {v : Int} {fault : EvalFault}
    (failed : c.operand k v = .error fault) : fault.IsOwn := by
  rw [operand] at failed
  split at failed
  · cases failed
  · cases failed
    trivial

theorem isOwn_of_convert {value : ConstValue} {fault : EvalFault}
    (failed : c.convert? value = some (.error fault)) : fault.IsOwn := by
  unfold convert? at failed
  split at failed
  · exact isOwn_of_operand (Option.some_inj.mp failed)
  all_goals try cases failed
  split at failed <;> cases failed

theorem isOwn_of_name (unfailed : c.symbols.Unfailed) {n : ScopedName} {fault : EvalFault}
    (failed : c.name n = .error fault) : fault.IsOwn := by
  rw [name] at failed
  cases constant : c.constant n with
  | error fault' =>
    simp only [constant, bind, Except.bind] at failed
    cases failed
    rw [Context.constant] at constant
    split at constant
    · cases constant
      trivial
    · next id resolved =>
      split at constant
      · cases constant
      · cases constant
        trivial
      · next poisoned => exact absurd poisoned (unfailed id)
      · cases constant
        trivial
  | ok k =>
    simp only [constant, bind, Except.bind] at failed
    split at failed
    · next converted eq => exact isOwn_of_convert (eq.trans (congrArg some failed))
    · cases failed
      trivial

theorem isOwn_of_literal {l : Literal} {fault : EvalFault}
    (failed : c.literal l = .error fault) : fault.IsOwn := by
  rw [literal] at failed
  split at failed
  · next converted eq => exact isOwn_of_convert (eq.trans (congrArg some failed))
  · cases failed
    trivial

theorem isOwn_of_result {k : IntKind} {v : Option Int} {fault : EvalFault}
    (failed : k.result v = .error fault) : fault.IsOwn := by
  rw [IntKind.result] at failed
  split at failed <;> cases failed
  trivial

theorem isOwn_of_intBinary {k : IntKind} {op : BinaryOp} {a b : Int} {fault : EvalFault}
    (failed : k.binary op a b = .error fault) : fault.IsOwn := by
  cases op <;> simp only [IntKind.binary] at failed <;> (try split at failed) <;> cases failed <;>
    trivial

theorem isOwn_of_doubleBinary {op : BinaryOp} {a b : Double} {fault : EvalFault}
    (failed : doubleBinary op a b = .error fault) : fault.IsOwn := by
  cases op <;> simp only [doubleBinary] at failed <;> (try split at failed) <;> cases failed <;>
    trivial

theorem isOwn_of_computed (op : String) {f : IntKind → Except EvalFault Int} {fault : EvalFault}
    (inner : ∀ k fault, f k = .error fault → fault.IsOwn)
    (failed : (do return ConstValue.int (← f (← c.intKind op))) = Except.error fault) :
    fault.IsOwn := by
  cases kind : c.intKind op with
  | error fault' =>
    simp only [kind, bind, Except.bind] at failed
    cases failed
    rw [intKind] at kind
    split at kind <;> cases kind
    trivial
  | ok k =>
    cases computed : f k with
    | error fault' =>
      simp only [kind, bind, Except.bind, computed] at failed
      cases failed
      exact inner k _ computed
    | ok v =>
      simp only [kind, bind, Except.bind, computed] at failed
      cases failed

theorem isOwn_of_unary {op : UnaryOp} {operand : ConstValue} {fault : EvalFault}
    (failed : c.unary op operand = .error fault) : fault.IsOwn := by
  unfold unary at failed
  split at failed
  · cases failed
  · cases failed
  · cases failed
  · next v =>
    exact isOwn_of_computed _ (f := fun k => k.result (IntKind.wide? (-v)))
      (fun _ _ => isOwn_of_result) failed
  · cases failed
  · cases failed
  · next v =>
    exact isOwn_of_computed _ (f := fun k => k.result (some (k.complement v)))
      (fun _ _ => isOwn_of_result) failed
  · cases failed
    trivial

theorem isOwn_of_binary {op : BinaryOp} {left right : ConstValue} {fault : EvalFault}
    (failed : c.binary op left right = .error fault) : fault.IsOwn := by
  unfold binary at failed
  split at failed
  · next a b =>
    refine isOwn_of_computed (c := c) op.text
      (f := fun k => do k.result (← k.binary op a b)) ?_ ?_
    · intro k fault failed
      cases computed : k.binary op a b with
      | error fault' =>
        simp only [computed, bind, Except.bind] at failed
        cases failed
        exact isOwn_of_intBinary computed
      | ok v =>
        simp only [computed, bind, Except.bind] at failed
        exact isOwn_of_result failed
    · rw [← failed]
      simp
  · next a b =>
    cases computed : doubleBinary op a b with
    | error fault' =>
      rw [computed] at failed
      cases failed
      exact isOwn_of_doubleBinary computed
    | ok x => rw [computed] at failed; cases failed
  · next a b =>
    cases computed : doubleBinary op a b with
    | error fault' =>
      rw [computed] at failed
      cases failed
      exact isOwn_of_doubleBinary computed
    | ok x => rw [computed] at failed; cases failed
  · cases failed
    trivial

theorem error_of_mapError {α : Type} {x : Except EvalFault α} {span : Span} {error : EvalError}
    (failed : x.mapError (⟨·, span⟩ : EvalFault → EvalError) = .error error) :
    x = .error error.fault := by
  cases x with
  | error fault => cases failed; rfl
  | ok b => cases failed

theorem isOwn_of_eval (unfailed : c.symbols.Unfailed) (e : ConstExpr) {error : EvalError}
    (failed : c.eval e = .error error) : error.fault.IsOwn := by
  induction e generalizing error with
  | literal l span _ =>
    rw [eval] at failed
    exact isOwn_of_literal (error_of_mapError failed)
  | name n span _ =>
    rw [eval] at failed
    exact isOwn_of_name unfailed (error_of_mapError failed)
  | unary op operand span _ ih =>
    rw [eval] at failed
    cases inner : c.eval operand with
    | error error' => rw [inner] at failed; cases failed; exact ih inner
    | ok v =>
      rw [inner] at failed
      exact isOwn_of_unary (error_of_mapError failed)
  | binary op left right span _ ihl ihr =>
    rw [eval] at failed
    cases first : c.eval left with
    | error error' => rw [first] at failed; cases failed; exact ihl first
    | ok a =>
      cases second : c.eval right with
      | error error' => rw [first, second] at failed; cases failed; exact ihr second
      | ok b =>
        rw [first, second] at failed
        exact isOwn_of_binary (error_of_mapError failed)

end Eval.Context

/-- Where no constant has failed, every failure is one to report. -/
theorem isCascade_of_evaluate {t : SymbolTable} (unfailed : t.Unfailed) {scope : SymbolId}
    {type : ConstType} {e : ConstExpr} {error : EvalError}
    (failed : evaluate t scope type e = .error error) : error.isCascade = false := by
  have own : error.fault.IsOwn := by
    rw [evaluate] at failed
    cases computed : (⟨t, scope, type⟩ : Context).eval e with
    | error error' =>
      simp only [computed, bind, Except.bind] at failed
      cases failed
      exact Context.isOwn_of_eval unfailed e computed
    | ok v =>
      simp only [computed, bind, Except.bind] at failed
      split at failed
      · split at failed <;> cases failed
        trivial
      · cases failed
  unfold EvalFault.IsOwn at own
  unfold EvalError.isCascade
  split at own <;> simp_all

end Idl
