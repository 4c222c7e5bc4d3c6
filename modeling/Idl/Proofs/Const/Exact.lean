import Idl.Proofs.Const.Evaluate
import Idl.Proofs.Const.Wide

/-!
Constants of integer types are computed exactly: an expression has a value just when all its numbers
and exact results are in range, and then it is that value. So a wider type gives the value that a
narrower one gave. Main statements: `evaluate_exact` and `evaluate_widen`.
-/

set_option autoImplicit false

namespace Idl

open Eval

/-- A literal or constant may have the value: it is in range, or the magnitude of the least number,
which can then be negated. -/
def IntKind.Leaf (k : IntKind) (v : Int) : Prop := k.min ≤ v ∧ v ≤ Max.max k.max (-k.min)

section

variable (t : SymbolTable) (scope : SymbolId) (k : IntKind)

/-- What an expression stands for among all integers, where its numbers and results are in range. -/
inductive Denotes : ConstExpr → Int → Prop
  | literal {n : Nat} {radix : Radix} {span : Span} {value : Option Constant} (leaf : k.Leaf n) :
    Denotes (.literal (.integer n radix) span value) n
  | name {name : ScopedName} {span : Span} {value : Option Constant} {id : SymbolId}
    {type : ConstType} {v : Int} (resolved : t.resolve scope name = .ok id)
    (constant : (t.symbol id).constant = .value ⟨type, .int v⟩) (leaf : k.Leaf v) :
    Denotes (.name name span value) v
  | plus {e : ConstExpr} {v : Int} {span : Span} {value : Option Constant}
    (operand : Denotes e v) : Denotes (.unary .plus e span value) v
  | minus {e : ConstExpr} {v : Int} {span : Span} {value : Option Constant}
    (operand : Denotes e v) (inside : k.contains (-v) = true) :
    Denotes (.unary .minus e span value) (-v)
  | not {e : ConstExpr} {v : Int} {span : Span} {value : Option Constant}
    (operand : Denotes e v) (inside : k.contains (k.exactComplement v) = true) :
    Denotes (.unary .not e span value) (k.exactComplement v)
  | binary {op : BinaryOp} {left right : ConstExpr} {a b v : Int} {span : Span}
    {value : Option Constant} (first : Denotes left a) (second : Denotes right b)
    (exact : k.exactBinary? op a b = some v) (inside : k.contains v = true) :
    Denotes (.binary op left right span value) v

/-- Some operator of the expression has an exact result that is out of range, and nothing in front
of it is without a value. -/
inductive Overflows : ConstExpr → Prop
  | minus {e : ConstExpr} {v : Int} {span : Span} {value : Option Constant}
    (operand : Denotes t scope k e v) (outside : k.contains (-v) = false) :
    Overflows (.unary .minus e span value)
  | not {e : ConstExpr} {v : Int} {span : Span} {value : Option Constant}
    (operand : Denotes t scope k e v) (outside : k.contains (k.exactComplement v) = false) :
    Overflows (.unary .not e span value)
  | binary {op : BinaryOp} {left right : ConstExpr} {a b v : Int} {span : Span}
    {value : Option Constant} (first : Denotes t scope k left a)
    (second : Denotes t scope k right b) (exact : k.exactBinary? op a b = some v)
    (outside : k.contains v = false) : Overflows (.binary op left right span value)
  | operand {op : UnaryOp} {e : ConstExpr} {span : Span} {value : Option Constant}
    (inner : Overflows e) : Overflows (.unary op e span value)
  | left {op : BinaryOp} {left right : ConstExpr} {span : Span} {value : Option Constant}
    (inner : Overflows left) : Overflows (.binary op left right span value)
  | right {op : BinaryOp} {left right : ConstExpr} {a : Int} {span : Span}
    {value : Option Constant} (first : Denotes t scope k left a) (inner : Overflows right) :
    Overflows (.binary op left right span value)

end

/-- The fault is an overflow. -/
def EvalFault.IsOverflow : EvalFault → Prop
  | .overflow _ => True
  | _ => False

variable {t : SymbolTable} {scope : SymbolId} {k k' : IntKind} {e : ConstExpr} {v : Int}

theorem Denotes.leaf (denotes : Denotes t scope k e v) : k.Leaf v := by
  have result {v : Int} (inside : k.contains v = true) : k.Leaf v :=
    IntKind.admitsOperand_iff.mp (IntKind.admitsOperand_of_contains inside)
  induction denotes with
  | literal leaf => exact leaf
  | name _ _ leaf => exact leaf
  | plus _ ih => exact ih
  | minus _ inside _ => exact result inside
  | not _ inside _ => exact result inside
  | binary _ _ _ inside _ _ => exact result inside

theorem Denotes.admits (denotes : Denotes t scope k e v) : k.admitsOperand v = true :=
  IntKind.admitsOperand_iff.mpr denotes.leaf

/-! One step of evaluation as an integer. -/

namespace Eval.Context

/-- An exact result, which has to fit the kind. -/
def settle (k : IntKind) (v : Int) : Except EvalFault ConstValue :=
  if k.contains v then .ok (.int v) else .error (.overflow k.text)

/-- A computed result is settled as the exact one where a kind can tell no difference. -/
theorem settle_of_filter {w : Option Int}
    (same : w.filter k.contains = (some v).filter k.contains) :
    (do return ConstValue.int (← k.result w) : Except EvalFault ConstValue) = settle k v := by
  rw [IntKind.result, same, settle]
  cases inside : k.contains v with
  | false => simp [Option.filter, inside, bind, Except.bind]
  | true => simp [Option.filter, inside, bind, Except.bind, pure, Except.pure]

variable {op : BinaryOp} {a b : Int}

theorem unary_minus : unary ⟨t, scope, .integer k⟩ .minus (.int v) = settle k (-v) :=
  settle_of_filter (k.filter_wide? (-v))

theorem unary_not (operand : k.admitsOperand v = true) :
    unary ⟨t, scope, .integer k⟩ .not (.int v) = settle k (k.exactComplement v) := by
  rw [← IntKind.complement_of_operand operand]
  exact settle_of_filter rfl

theorem binary_of_exact (first : k.admitsOperand a = true) (second : k.admitsOperand b = true)
    (exact : k.exactBinary? op a b = some v) :
    binary ⟨t, scope, .integer k⟩ op (.int a) (.int b) = settle k v := by
  obtain ⟨w, computed, same⟩ := IntKind.binary_of_exact first second exact
  rw [← settle_of_filter same, binary]
  simp only [intKind, bind, Except.bind, computed]

theorem binary_of_undefined (t : SymbolTable) (scope : SymbolId)
    (undefined : k.exactBinary? op a b = none) :
    ∃ fault, binary ⟨t, scope, .integer k⟩ op (.int a) (.int b) = .error fault ∧
      ¬ fault.IsOverflow := by
  obtain ⟨fault, computed, other⟩ := IntKind.binary_of_undefined undefined
  refine ⟨fault, ?_, ?_⟩
  · rw [binary]
    simp only [intKind, bind, Except.bind, computed]
  · cases fault with
    | overflow type => exact absurd rfl (other type)
    | _ => exact id

/-- An integer from outside is taken just as a leaf may be. -/
theorem operand_of_leaf {c : Context} (leaf : k.Leaf v) : c.operand k v = .ok (.int v) :=
  if_pos (IntKind.admitsOperand_iff.mpr leaf)

theorem operand_of_not_leaf {c : Context} (outside : ¬ k.Leaf v) :
    c.operand k v = .error (.outOfRange v c.typeText) :=
  if_neg fun admits => outside (IntKind.admitsOperand_iff.mp admits)

/-- As an integer, only an integer is taken. -/
theorem convert?_integer (value : ConstValue) :
    convert? ⟨t, scope, .integer k⟩ value =
      match value with
      | .int v => some (operand ⟨t, scope, .integer k⟩ k v)
      | _ => none := by
  cases value <;> rfl

/-! Evaluation as an integer. -/

section

variable {value : Option Constant} {span : Span}

theorem eval_unary {c : Context} {op : UnaryOp} (inner : c.eval e = .ok (.int v)) :
    c.eval (.unary op e span value) = (c.unary op (.int v)).mapError (⟨·, span⟩) := by
  rw [eval, inner]
  rfl

theorem eval_binary {c : Context} {left right : ConstExpr} (first : c.eval left = .ok (.int a))
    (second : c.eval right = .ok (.int b)) :
    c.eval (.binary op left right span value) =
      (c.binary op (.int a) (.int b)).mapError (⟨·, span⟩) := by
  rw [eval, first, second]
  rfl

theorem eval_of_settle {x : Except EvalFault ConstValue} (settled : x = settle k v)
    (inside : k.contains v = true) :
    x.mapError (⟨·, span⟩ : EvalFault → EvalError) = .ok (.int v) := by
  rw [settled, settle, if_pos inside]
  rfl

theorem overflow_of_settle {x : Except EvalFault ConstValue} (settled : x = settle k v)
    (outside : k.contains v = false) :
    x.mapError (⟨·, span⟩ : EvalFault → EvalError) = .error ⟨.overflow k.text, span⟩ := by
  rw [settled, settle, if_neg (Bool.not_eq_true _ ▸ outside)]
  rfl

end

theorem eval_of_denotes (denotes : Denotes t scope k e v) :
    eval ⟨t, scope, .integer k⟩ e = .ok (.int v) := by
  induction denotes with
  | literal leaf =>
    rw [eval, literal, convert?_integer]
    simp only [literalValue, operand_of_leaf leaf]
    rfl
  | name resolved constant leaf =>
    rw [eval, name, Context.constant]
    simp only [resolved, constant, bind, Except.bind, convert?_integer, operand_of_leaf leaf]
    rfl
  | plus _ ih =>
    rw [eval_unary ih]
    rfl
  | minus _ inside ih =>
    rw [eval_unary ih]
    exact eval_of_settle unary_minus inside
  | not operand inside ih =>
    rw [eval_unary ih]
    exact eval_of_settle (unary_not operand.admits) inside
  | binary first second exact inside ihl ihr =>
    rw [eval_binary ihl ihr]
    exact eval_of_settle (binary_of_exact first.admits second.admits exact) inside

theorem eval_of_overflows (overflows : Overflows t scope k e) :
    ∃ span, eval ⟨t, scope, .integer k⟩ e = .error ⟨.overflow k.text, span⟩ := by
  induction overflows with
  | @minus _ _ span _ operand outside =>
    refine ⟨span, ?_⟩
    rw [eval_unary (eval_of_denotes operand)]
    exact overflow_of_settle unary_minus outside
  | @not _ _ span _ operand outside =>
    refine ⟨span, ?_⟩
    rw [eval_unary (eval_of_denotes operand)]
    exact overflow_of_settle (unary_not operand.admits) outside
  | @binary _ _ _ _ _ _ span _ first second exact outside =>
    refine ⟨span, ?_⟩
    rw [eval_binary (eval_of_denotes first) (eval_of_denotes second)]
    exact overflow_of_settle (binary_of_exact first.admits second.admits exact) outside
  | operand _ ih =>
    obtain ⟨span, failed⟩ := ih
    exact ⟨span, by rw [eval, failed]; rfl⟩
  | left _ ih =>
    obtain ⟨span, failed⟩ := ih
    exact ⟨span, by rw [eval, failed]; rfl⟩
  | right first _ ih =>
    obtain ⟨span, failed⟩ := ih
    exact ⟨span, by rw [eval, eval_of_denotes first, failed]; rfl⟩

/-- Evaluation fails, and not since a number overflows. -/
def FailsOtherwise (c : Context) (e : ConstExpr) : Prop :=
  ∃ error, c.eval e = .error error ∧ ¬ error.fault.IsOverflow

/-- A fault at an expression is the fault of its evaluation. -/
theorem failsOtherwise_of_fault {c : Context} {x : Except EvalFault ConstValue} {span : Span}
    {fault : EvalFault} (eval : c.eval e = x.mapError (⟨·, span⟩)) (failed : x = .error fault)
    (other : ¬ fault.IsOverflow) : c.FailsOtherwise e :=
  ⟨⟨fault, span⟩, by rw [eval, failed]; rfl, other⟩

/-- A name is taken for an integer constant, and for nothing else. -/
theorem name_cases (t : SymbolTable) (scope : SymbolId) (k : IntKind) (n : ScopedName) :
    (∃ id type v, t.resolve scope n = .ok id ∧ (t.symbol id).constant = .value ⟨type, .int v⟩ ∧
      k.Leaf v) ∨
    ∃ fault, name ⟨t, scope, .integer k⟩ n = .error fault ∧ ¬ fault.IsOverflow := by
  rw [name, Context.constant]
  cases resolved : t.resolve scope n with
  | error error => exact .inr ⟨.lookup error, rfl, id⟩
  | ok found =>
    cases slot : (t.symbol found).constant with
    | absent | pending | failed => exact .inr ⟨_, by simp only [slot]; rfl, id⟩
    | value constant =>
      obtain ⟨type, value⟩ := constant
      simp only [slot, bind, Except.bind, convert?_integer]
      cases value with
      | int v =>
        by_cases leaf : k.Leaf v
        · exact .inl ⟨found, type, v, rfl, slot, leaf⟩
        · exact .inr ⟨_, operand_of_not_leaf leaf, id⟩
      | _ => exact .inr ⟨_, rfl, id⟩

/-- An expression denotes an integer, overflows, or fails for another reason. -/
theorem eval_cases (t : SymbolTable) (scope : SymbolId) (k : IntKind) (e : ConstExpr) :
    (∃ v, Denotes t scope k e v) ∨ Overflows t scope k e ∨
      FailsOtherwise ⟨t, scope, .integer k⟩ e := by
  induction e with
  | literal l span value =>
    cases l with
    | integer n radix =>
      by_cases leaf : k.Leaf n
      · exact .inl ⟨n, .literal leaf⟩
      · have failed := operand_of_not_leaf (c := ⟨t, scope, .integer k⟩) leaf
        exact .inr (.inr
          (failsOtherwise_of_fault (x := literal _ (.integer n radix)) rfl failed id))
    | _ => exact .inr (.inr ⟨_, rfl, id⟩)
  | name n span value =>
    rcases name_cases t scope k n with ⟨id, type, v, resolved, slot, leaf⟩ | ⟨fault, failed, other⟩
    · exact .inl ⟨v, .name resolved slot leaf⟩
    · exact .inr (.inr (failsOtherwise_of_fault rfl failed other))
  | unary op operand span value ih =>
    rcases ih with ⟨v, denotes⟩ | overflows | ⟨error, failed, other⟩
    · cases op with
      | plus => exact .inl ⟨v, .plus denotes⟩
      | minus =>
        cases inside : k.contains (-v) with
        | true => exact .inl ⟨_, .minus denotes inside⟩
        | false => exact .inr (.inl (.minus denotes inside))
      | not =>
        cases inside : k.contains (k.exactComplement v) with
        | true => exact .inl ⟨_, .not denotes inside⟩
        | false => exact .inr (.inl (.not denotes inside))
    · exact .inr (.inl (.operand overflows))
    · exact .inr (.inr ⟨error, by rw [eval, failed]; rfl, other⟩)
  | binary op left right span value ihl ihr =>
    rcases ihl with ⟨a, first⟩ | overflows | ⟨error, failed, other⟩
    · rcases ihr with ⟨b, second⟩ | overflows | ⟨error, failed, other⟩
      · cases exact : k.exactBinary? op a b with
        | none =>
          obtain ⟨fault, failed, other⟩ := binary_of_undefined t scope exact
          exact .inr (.inr (failsOtherwise_of_fault
            (eval_binary (eval_of_denotes first) (eval_of_denotes second)) failed other))
        | some v =>
          cases inside : k.contains v with
          | true => exact .inl ⟨v, .binary first second exact inside⟩
          | false => exact .inr (.inl (.binary first second exact inside))
      · exact .inr (.inl (.right first overflows))
      · exact .inr (.inr ⟨error, by rw [eval, eval_of_denotes first, failed]; rfl, other⟩)
    · exact .inr (.inl (.left overflows))
    · exact .inr (.inr ⟨error, by rw [eval, failed]; rfl, other⟩)

/-- Evaluation gives what the expression denotes. -/
theorem eval_eq_ok_iff {value : ConstValue} :
    eval ⟨t, scope, .integer k⟩ e = .ok value ↔ ∃ v, value = .int v ∧ Denotes t scope k e v := by
  constructor
  · intro computed
    rcases eval_cases t scope k e with ⟨v, denotes⟩ | overflows | ⟨error, failed, _⟩
    · rw [eval_of_denotes denotes] at computed
      cases computed
      exact ⟨v, rfl, denotes⟩
    · obtain ⟨span, failed⟩ := eval_of_overflows overflows
      cases computed.symm.trans failed
    · cases computed.symm.trans failed
  · rintro ⟨v, rfl, denotes⟩
    exact eval_of_denotes denotes

/-- Evaluation reports an overflow just for an expression that has one. -/
theorem eval_overflow_iff :
    (∃ error, eval ⟨t, scope, .integer k⟩ e = .error error ∧ error.fault.IsOverflow) ↔
      Overflows t scope k e := by
  constructor
  · rintro ⟨error, failed, overflow⟩
    rcases eval_cases t scope k e with ⟨v, denotes⟩ | overflows | ⟨error', failed', other⟩
    · cases failed.symm.trans (eval_of_denotes denotes)
    · exact overflows
    · cases failed.symm.trans failed'
      exact absurd overflow other
  · intro overflows
    obtain ⟨span, failed⟩ := eval_of_overflows overflows
    exact ⟨_, failed, trivial⟩

end Eval.Context

/-- A constant of an integer type is what its expression denotes, in range. -/
theorem evaluate_eq_ok_iff {c : Constant} :
    evaluate t scope (.integer k) e = .ok c ↔
      ∃ v, c = ⟨.integer k, .int v⟩ ∧ Denotes t scope k e v ∧ k.min ≤ v ∧ v ≤ k.max := by
  constructor
  · intro computed
    cases inner : Context.eval ⟨t, scope, .integer k⟩ e with
    | error error =>
      simp only [evaluate, inner, bind, Except.bind] at computed
      cases computed
    | ok value =>
      obtain ⟨v, rfl, denotes⟩ := Context.eval_eq_ok_iff.mp inner
      simp only [evaluate, inner, bind, Except.bind] at computed
      split at computed
      · next inside =>
        cases computed
        exact ⟨v, rfl, denotes, (k.contains_iff v).mp inside⟩
      · cases computed
  · rintro ⟨v, rfl, denotes, inside⟩
    simp only [evaluate, Context.eval_of_denotes denotes, bind, Except.bind]
    exact if_pos ((k.contains_iff v).mpr inside)

/-- A constant of an integer type overflows just where an operator of its expression does. -/
theorem evaluate_overflow_iff :
    (∃ error, evaluate t scope (.integer k) e = .error error ∧ error.fault.IsOverflow) ↔
      Overflows t scope k e := by
  rw [← Context.eval_overflow_iff]
  refine exists_congr fun error => ?_
  cases inner : Context.eval ⟨t, scope, .integer k⟩ e with
  | error error' =>
    simp only [evaluate, inner, bind, Except.bind, Except.error.injEq]
  | ok value =>
    obtain ⟨v, rfl, -⟩ := Context.eval_eq_ok_iff.mp inner
    simp only [evaluate, inner, bind, Except.bind]
    constructor
    · rintro ⟨failed, overflow⟩
      split at failed
      · cases failed
      · cases failed
        exact overflow.elim
    · rintro ⟨failed, -⟩
      cases failed

/-- Evaluation as an integer is exact. The value is what the expression stands for among all
integers, given just where no number and no result is out of range, and an overflow is reported
just where the exact result of an operator is out of range. On all values that come up, the
arithmetic that is not checked does not wrap: the difference that flips the bits of an unsigned
number, and the power that a number is multiplied with to shift it. -/
theorem evaluate_exact (t : SymbolTable) (scope : SymbolId) (k : IntKind) (e : ConstExpr) :
    (∀ v, evaluate t scope (.integer k) e = .ok ⟨.integer k, .int v⟩ ↔
      Denotes t scope k e v ∧ k.min ≤ v ∧ v ≤ k.max) ∧
    (∀ c, evaluate t scope (.integer k) e = .ok c → ∃ v, c = ⟨.integer k, .int v⟩) ∧
    ((∃ error, evaluate t scope (.integer k) e = .error error ∧ error.fault.IsOverflow) ↔
      Overflows t scope k e) ∧
    ∀ v, Context.eval ⟨t, scope, .integer k⟩ e = .ok (.int v) →
      IntKind.wide (k.max - v) = k.max - v ∧
      (0 ≤ v → v < k.bits →
        v.toNat < 128 ∧ IntKind.wide ((1 : Int) <<< v.toNat) = 2 ^ v.toNat) := by
  refine ⟨fun v => ⟨fun computed => ?_, fun holds => ?_⟩, fun c computed => ?_,
    evaluate_overflow_iff, fun v computed => ⟨?_, fun _ amount => ⟨?_, ?_⟩⟩⟩
  · obtain ⟨w, same, holds⟩ := evaluate_eq_ok_iff.mp computed
    cases same
    exact holds
  · exact evaluate_eq_ok_iff.mpr ⟨v, rfl, holds⟩
  · obtain ⟨v, rfl, -⟩ := evaluate_eq_ok_iff.mp computed
    exact ⟨v, rfl⟩
  · obtain ⟨w, same, denotes⟩ := Context.eval_eq_ok_iff.mp computed
    cases same
    exact IntKind.wide_difference denotes.admits
  · have width := k.bits_le
    omega
  · exact IntKind.wide_power amount

/-! Wider types. -/

/-- The kind holds all numbers of the other. -/
structure IntKind.Within (k k' : IntKind) : Prop where
  min : k'.min ≤ k.min
  max : k.max ≤ k'.max

namespace IntKind.Within

variable (within : k.Within k')
include within

theorem contains (inside : k.contains v = true) : k'.contains v = true := by
  rw [contains_iff] at inside ⊢
  exact ⟨le_trans within.min inside.1, le_trans inside.2 within.max⟩

theorem leaf (leaf : k.Leaf v) : k'.Leaf v :=
  ⟨le_trans within.min leaf.1,
    le_trans leaf.2 (max_le_max within.max (Int.neg_le_neg within.min))⟩

theorem bits : k.bits ≤ k'.bits := by
  obtain ⟨min, max⟩ := within
  revert min max
  cases k <;> cases k' <;> decide

/-- An exact result is the same, whatever the kind. -/
theorem exactBinary? {op : BinaryOp} {a b : Int} (exact : k.exactBinary? op a b = some v) :
    k'.exactBinary? op a b = some v := by
  have width := within.bits
  cases op with
  | shl | shr =>
    simp only [IntKind.exactBinary?, Option.ite_none_right_eq_some] at exact ⊢
    exact ⟨⟨exact.1.1, by omega⟩, exact.2⟩
  | _ => exact exact

end IntKind.Within

/-- Bits of a number are flipped somewhere in the expression. -/
def ConstExpr.complements : ConstExpr → Bool
  | .literal _ _ _ | .name _ _ _ => false
  | .unary op operand _ _ => op == .not || operand.complements
  | .binary _ left right _ _ => left.complements || right.complements

theorem Denotes.widen (within : k.Within k')
    (alike : e.complements = false ∨ (k.signed = true ∧ k'.signed = true))
    (denotes : Denotes t scope k e v) : Denotes t scope k' e v := by
  induction denotes with
  | literal leaf => exact .literal (within.leaf leaf)
  | name resolved constant leaf => exact .name resolved constant (within.leaf leaf)
  | plus _ ih => exact .plus (ih alike)
  | minus _ inside ih => exact .minus (ih alike) (within.contains inside)
  | @not e v span value _ inside ih =>
    -- only here the kinds matter
    have signed : k.signed = true ∧ k'.signed = true :=
      alike.resolve_left (by simp [ConstExpr.complements])
    have same : k.exactComplement v = k'.exactComplement v := by
      rw [IntKind.exactComplement, IntKind.exactComplement, if_pos signed.1, if_pos signed.2]
    rw [same]
    exact .not (ih (.inr signed)) (same ▸ within.contains inside)
  | binary _ _ exact inside ihl ihr =>
    have parts := alike.imp_left Bool.or_eq_false_iff.mp
    exact .binary (ihl (parts.imp_left And.left)) (ihr (parts.imp_left And.right))
      (within.exactBinary? exact) (within.contains inside)

/-- A constant keeps its value when its type is widened, unless bits are flipped in it and one of
the types is unsigned. -/
theorem evaluate_widen (t : SymbolTable) (scope : SymbolId) (k k' : IntKind) (e : ConstExpr)
    (c : Constant) (min : k'.min ≤ k.min) (max : k.max ≤ k'.max)
    (alike : e.complements = false ∨ (k.signed = true ∧ k'.signed = true))
    (value : evaluate t scope (.integer k) e = .ok c) :
    evaluate t scope (.integer k') e = .ok ⟨.integer k', c.value⟩ := by
  have within : k.Within k' := ⟨min, max⟩
  obtain ⟨v, rfl, denotes, inside⟩ := evaluate_eq_ok_iff.mp value
  exact evaluate_eq_ok_iff.mpr
    ⟨v, rfl, denotes.widen within alike, le_trans min inside.1, le_trans inside.2 max⟩

/-- `~(-128)` is 127 as an `int8`, where 128 is the magnitude of the least number, and so it is as
an `int32`. -/
theorem evaluate_widen_int8 :
    let number : ConstExpr := .literal (.integer 128 .decimal) Span.empty none
    let e : ConstExpr := .unary .not (.unary .minus number Span.empty none) Span.empty none
    e.complements = true ∧
      evaluate .empty SymbolTable.rootId (.integer .int8) e = .ok ⟨.integer .int8, .int 127⟩ ∧
      evaluate .empty SymbolTable.rootId (.integer .int32) e = .ok ⟨.integer .int32, .int 127⟩ := by
  intro number e
  have value : evaluate .empty SymbolTable.rootId (.integer .int8) e =
      .ok ⟨.integer .int8, .int 127⟩ := by decide
  exact ⟨rfl, value, evaluate_widen .empty SymbolTable.rootId .int8 .int32 e _ (by decide)
    (by decide) (.inr ⟨rfl, rfl⟩) value⟩

end Idl
