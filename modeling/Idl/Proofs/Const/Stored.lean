import Idl.Const.Eval
import Idl.Proofs.Const.Evaluate
import Idl.Proofs.Scope.Frame

/-!
What evaluation reads: the names of a table and the values of its constants, and no value that an
expression has got before. Only a name yields an enumerator, and then the constant it refers to
holds it; and an error follows from another one only where a constant has failed. Main statements:
`evaluate_congr`, `evaluate_withValue`, `stored_of_evaluate` and `failed_of_isCascade`.
-/

set_option autoImplicit false

namespace Idl

/-- The tables have one frame, and their constants the same values. -/
structure SameConstants (t u : SymbolTable) : Prop where
  frame : SameFrame t u
  constants : ∀ id, (u.symbol id).constant = (t.symbol id).constant

theorem SameSymbols.constTypeText {t u : SymbolTable} (same : SameSymbols t u) (type : ConstType) :
    u.constTypeText type = t.constTypeText type := by
  cases type with
  | enum id => rw [SymbolTable.constTypeText, SymbolTable.constTypeText, same.qualifiedName]
  | _ => rfl

namespace Eval.Context

variable {t u : SymbolTable} (same : SameSymbols t u)
  (constants : ∀ id, (u.symbol id).constant = (t.symbol id).constant) (scope : SymbolId)
  (type : ConstType)

include same

theorem typeText_congr : typeText ⟨u, scope, type⟩ = typeText ⟨t, scope, type⟩ :=
  same.constTypeText type

theorem convert?_congr (value : ConstValue) :
    convert? ⟨u, scope, type⟩ value = convert? ⟨t, scope, type⟩ value := by
  have operand (k : IntKind) (v : Int) :
      operand ⟨u, scope, type⟩ k v = operand ⟨t, scope, type⟩ k v := by
    rw [Context.operand, Context.operand, typeText_congr same]
  simp only [convert?, operand]

theorem literal_congr (l : Literal) :
    literal ⟨u, scope, type⟩ l = literal ⟨t, scope, type⟩ l := by
  simp only [literal, convert?_congr same, typeText_congr same]

include constants in
theorem constant_congr (n : ScopedName) :
    constant ⟨u, scope, type⟩ n = constant ⟨t, scope, type⟩ n := by
  simp only [constant, same.resolve, constants]

include constants in
theorem name_congr (n : ScopedName) :
    name ⟨u, scope, type⟩ n = name ⟨t, scope, type⟩ n := by
  simp only [name, constant_congr same constants, convert?_congr same, typeText_congr same,
    same.constTypeText]

theorem intKind_congr (op : String) :
    intKind ⟨u, scope, type⟩ op = intKind ⟨t, scope, type⟩ op := by
  simp only [intKind, typeText_congr same]

theorem unary_congr (op : UnaryOp) (value : ConstValue) :
    unary ⟨u, scope, type⟩ op value = unary ⟨t, scope, type⟩ op value := by
  simp only [unary, intKind_congr same]

theorem binary_congr (op : BinaryOp) (left right : ConstValue) :
    binary ⟨u, scope, type⟩ op left right = binary ⟨t, scope, type⟩ op left right := by
  simp only [binary, intKind_congr same]

include constants in
theorem eval_congr (e : ConstExpr) :
    eval ⟨u, scope, type⟩ e = eval ⟨t, scope, type⟩ e := by
  induction e with
  | literal l span _ => simp only [eval, literal_congr same]
  | name n span _ => simp only [eval, name_congr same constants]
  | unary op operand span _ ih => simp only [eval, ih, unary_congr same]
  | binary op left right span _ ihLeft ihRight =>
    simp only [eval, ihLeft, ihRight, binary_congr same]

end Eval.Context

/-- Evaluation reads the symbols alone. -/
theorem evaluate_congr_symbols {t u : SymbolTable} (same : SameSymbols t u)
    (constants : ∀ id, (u.symbol id).constant = (t.symbol id).constant) (scope : SymbolId)
    (type : ConstType) (e : ConstExpr) : evaluate u scope type e = evaluate t scope type e := by
  simp only [evaluate, Eval.Context.eval_congr same constants, Eval.Context.typeText_congr same]

theorem evaluate_congr {t u : SymbolTable} (same : SameConstants t u) (scope : SymbolId)
    (type : ConstType) (e : ConstExpr) : evaluate u scope type e = evaluate t scope type e :=
  evaluate_congr_symbols same.frame.same same.constants scope type e

theorem evaluate_withValue (t : SymbolTable) (scope : SymbolId) (type : ConstType) (e : ConstExpr)
    (value : Option Constant) :
    evaluate t scope type (e.withValue value) = evaluate t scope type e := by
  cases e <;> rfl

/-! What evaluation takes from the table. -/

namespace SymbolTable

/-- Some constant of the table has the value. -/
def Stores (t : SymbolTable) (v : ConstValue) : Prop :=
  ∃ id constant, (t.symbol id).constant = .value constant ∧ constant.value = v

end SymbolTable

namespace Eval.Context

variable {c : Context} {enum ordinal : Nat} {name : String}

/-- No other value converts to an enumerator. -/
theorem eq_of_convert {value : ConstValue}
    (converts : c.convert? value = some (.ok (.enumerator enum ordinal name))) :
    value = .enumerator enum ordinal name := by
  unfold convert? at converts
  split at converts
  · rw [operand] at converts
    split at converts <;> cases converts
  all_goals try cases converts
  split at converts
  · cases converts
    rfl
  · cases converts

theorem literal_ne_enumerator (l : Literal) :
    c.literal l ≠ .ok (.enumerator enum ordinal name) := by
  intro value
  rw [literal] at value
  split at value
  · next converted eq =>
    have same := eq_of_convert (eq.trans (congrArg some value))
    cases l <;> cases same
  · cases value

theorem stored_of_name {n : ScopedName}
    (value : c.name n = .ok (.enumerator enum ordinal name)) :
    c.symbols.Stores (.enumerator enum ordinal name) := by
  rw [Context.name] at value
  cases constant : c.constant n with
  | error fault =>
    rw [constant] at value
    cases value
  | ok k =>
    rw [constant] at value
    simp only [bind, Except.bind] at value
    split at value
    · next converted eq =>
      have same := eq_of_convert (eq.trans (congrArg some value))
      rw [Context.constant] at constant
      split at constant
      · cases constant
      · next id _ =>
        split at constant
        · next found =>
          cases constant
          exact ⟨id, k, found, same⟩
        all_goals cases constant
    · cases value

/-- What is computed is a number. -/
theorem computed_ne_enumerator (op : String) (f : IntKind → Except EvalFault Int) :
    (do return ConstValue.int (← f (← c.intKind op))) ≠
      Except.ok (ConstValue.enumerator enum ordinal name) := by
  intro value
  cases kind : c.intKind op with
  | error fault =>
    rw [kind] at value
    cases value
  | ok k =>
    cases computed : f k with
    | error fault =>
      simp only [kind, bind, Except.bind, computed] at value
      cases value
    | ok v =>
      simp only [kind, bind, Except.bind, computed] at value
      cases value

theorem unary_ne_enumerator (op : UnaryOp) (operand : ConstValue) :
    c.unary op operand ≠ .ok (.enumerator enum ordinal name) := by
  intro value
  unfold unary at value
  split at value
  case h_4 v => exact computed_ne_enumerator _ (fun k => k.result (IntKind.wide? (-v))) value
  case h_7 v => exact computed_ne_enumerator _ (fun k => k.result (some (k.complement v))) value
  all_goals cases value

theorem binary_ne_enumerator (op : BinaryOp) (left right : ConstValue) :
    c.binary op left right ≠ .ok (.enumerator enum ordinal name) := by
  intro value
  unfold binary at value
  split at value
  · next a b =>
    have computed : (do return ConstValue.int (← (fun k : IntKind => do
        k.result (← k.binary op a b)) (← c.intKind op.text))) =
          Except.ok (ConstValue.enumerator enum ordinal name) := by
      rw [← value]
      simp
    exact computed_ne_enumerator op.text _ computed
  · next a b =>
    cases computed : doubleBinary op a b <;> rw [computed] at value <;> cases value
  · next a b =>
    cases computed : doubleBinary op a b <;> rw [computed] at value <;> cases value
  · cases value

theorem stored_of_eval {e : ConstExpr}
    (value : c.eval e = .ok (.enumerator enum ordinal name)) :
    c.symbols.Stores (.enumerator enum ordinal name) := by
  cases e with
  | literal l span _ =>
    rw [eval] at value
    exact absurd (ok_of_mapError value) (literal_ne_enumerator l)
  | name n span _ =>
    rw [eval] at value
    exact stored_of_name (ok_of_mapError value)
  | unary op operand span _ =>
    rw [eval] at value
    cases inner : c.eval operand with
    | error fault => rw [inner] at value; cases value
    | ok v =>
      rw [inner] at value
      exact absurd (ok_of_mapError value) (unary_ne_enumerator op v)
  | binary op left right span _ =>
    rw [eval] at value
    cases first : c.eval left with
    | error fault => rw [first] at value; cases value
    | ok a =>
      cases second : c.eval right with
      | error fault => rw [first, second] at value; cases value
      | ok b =>
        rw [first, second] at value
        exact absurd (ok_of_mapError value) (binary_ne_enumerator op a b)

end Eval.Context

/-- An enumerator that an expression stands for is the value of a constant of the table. -/
theorem stored_of_evaluate {t : SymbolTable} {scope : SymbolId} {type : ConstType} {e : ConstExpr}
    {constant : Constant} {enum ordinal : Nat} {name : String}
    (value : evaluate t scope type e = .ok constant)
    (enumerator : constant.value = .enumerator enum ordinal name) :
    t.Stores (.enumerator enum ordinal name) := by
  rw [evaluate] at value
  cases computed : (⟨t, scope, type⟩ : Eval.Context).eval e with
  | error fault => simp only [computed, bind, Except.bind] at value; cases value
  | ok v =>
    simp only [computed, bind, Except.bind] at value
    have same : v = constant.value := by
      split at value
      · split at value
        · cases value
          rfl
        · cases value
      · cases value
        rfl
    rw [same, enumerator] at computed
    exact Eval.Context.stored_of_eval computed

/-- An error that follows from another one has a constant that failed behind it. -/
theorem failed_of_isCascade {t : SymbolTable} {scope : SymbolId} {type : ConstType}
    {e : ConstExpr} {error : EvalError} (failed : evaluate t scope type e = .error error)
    (cascade : error.isCascade = true) : ∃ id, (t.symbol id).constant = .failed := by
  refine Classical.byContradiction fun none => ?_
  have unfailed : t.Unfailed := fun id poisoned => none ⟨id, poisoned⟩
  rw [isCascade_of_evaluate unfailed failed] at cascade
  cases cascade

end Idl
