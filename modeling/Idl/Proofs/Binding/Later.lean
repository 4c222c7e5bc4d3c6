import Idl.Proofs.Binding.Passage
import Idl.Proofs.Scope.Arrival
import Idl.Proofs.Scope.Pending
import Idl.Proofs.Scope.Walk

/-!
Constants have no influence on what comes before them. Two units that differ in the value of one
constant alone have the same symbols, and binding does the same in both until it comes to the value.
Main statement: `bindUnit_before_const`.
-/

set_option autoImplicit false

namespace Idl

namespace Eval

/-- The evaluation of an expression comes to a name that stands at a place. -/
inductive Context.Reads (c : Context) (n : ScopedName) (place : Span) : ConstExpr → Prop
  | name (value : Option Constant) : Reads c n place (.name n place value)
  | unary (op : UnaryOp) {operand : ConstExpr} (span : Span) (value : Option Constant)
      (inner : Reads c n place operand) : Reads c n place (.unary op operand span value)
  | left (op : BinaryOp) {left : ConstExpr} (right : ConstExpr) (span : Span)
      (value : Option Constant) (inner : Reads c n place left) :
      Reads c n place (.binary op left right span value)
  | right (op : BinaryOp) {left right : ConstExpr} (span : Span) (value : Option Constant)
      {first : ConstValue} (evaluated : c.eval left = .ok first) (inner : Reads c n place right) :
      Reads c n place (.binary op left right span value)

/-- An evaluation that comes to a constant ahead of its time gets no further. -/
theorem Context.eval_of_reads {c : Context} {n : ScopedName} {place : Span} {e : ConstExpr}
    {id : SymbolId} (reads : c.Reads n place e) (resolved : c.symbols.resolve c.scope n = .ok id)
    (pending : (c.symbols.symbol id).constant = .pending) :
    c.eval e = .error ⟨.usedBeforeDefinition n.text, place⟩ := by
  induction reads with
  | name value =>
    have constant : c.constant n = .error (.usedBeforeDefinition n.text) := by
      simp only [Context.constant, resolved, pending]
    rw [Context.eval, Context.name, constant]
    rfl
  | unary op span value inner ih =>
    rw [Context.eval, ih]
    rfl
  | left op right span value inner ih =>
    rw [Context.eval, ih]
    rfl
  | right op span value evaluated inner ih =>
    rw [Context.eval, evaluated]
    change Except.bind (c.eval _) _ = _
    rw [ih]
    rfl

end Eval

theorem evaluate_of_reads {t : SymbolTable} {scope id : SymbolId} {type : ConstType}
    {n : ScopedName} {place : Span} {e : ConstExpr}
    (reads : Eval.Context.Reads ⟨t, scope, type⟩ n place e) (resolved : t.resolve scope n = .ok id)
    (pending : (t.symbol id).constant = .pending) :
    evaluate t scope type e = .error ⟨.usedBeforeDefinition n.text, place⟩ := by
  rw [evaluate, Eval.Context.eval_of_reads reads resolved pending]
  rfl

namespace Binding

/-- A unit with a constant somewhere in it, apart from the value of the constant. -/
structure ConstPlace where
  imports : List Import
  site : Site
  annotations : List AnnotationUse
  type : TypeSpec
  name : Ident
  span : Span

namespace ConstPlace

variable (p : ConstPlace)

/-- The unit with the value. -/
def unit (value : ConstExpr) : Specification :=
  ⟨p.imports, p.site.fill [⟨p.annotations, .const ⟨p.type, p.name, value⟩, p.span⟩]⟩

/-- What stands in front of the value: the unit cut off behind the type of the constant, where a
value box keeps the type. -/
def front : List Definition :=
  p.site.front.fill [⟨p.annotations, .valueBox ⟨p.name, p.type⟩, p.span⟩]

end ConstPlace

/-- What a walk has bound as it comes to the value of a constant, and its state there. -/
structure Halfway where
  front : Site
  annotations : List AnnotationUse
  type : TypeSpec
  state : Binding

/-- A walk that starts with the table comes there over what stands in front of the value. -/
def ConstPlace.ComesTo (p : ConstPlace) (start : SymbolTable) (h : Halfway) : Prop :=
  (definitions SymbolTable.rootId p.front).run ⟨start, []⟩ =
    (h.front.fill [⟨h.annotations, .valueBox ⟨p.name, h.type⟩, p.span⟩], h.state)

/-- In the bound unit, all that the walk had done by then is as it was then. -/
structure ConstPlace.Extends (p : ConstPlace) (h : Halfway) (bound : Bound) : Prop where
  tree : ∃ (c : Site) (value : ConstExpr), c.front = h.front ∧ c.path = p.site.path ∧
    bound.specification = ⟨p.imports,
      c.fill [⟨h.annotations, .const ⟨h.type, p.name, value⟩, p.span⟩]⟩
  /-- Constants declared in front keep their slots, as does all that is no constant. -/
  constants : ∀ id, (h.state.table.kind id = .const → ∃ name, ⟨name, .defined .const⟩ ∈
    p.site.ahead ∧ h.state.table.definedAt? name.span = some id) →
    (bound.table.symbol id).constant = (h.state.table.symbol id).constant
  errors : h.state.errors <+: bound.errors

/-! Entering. -/

theorem buildScopes_unit (p : ConstPlace) (v w : ConstExpr) :
    buildScopes (p.unit w) = buildScopes (p.unit v) := by
  obtain ⟨depart, whole, -⟩ := exists_departure p.site SymbolTable.rootId ⟨.empty, []⟩
  rw [buildScopes, buildScopes, ConstPlace.unit, ConstPlace.unit]
  simp only [whole]
  generalize p.site.arrive SymbolTable.rootId ⟨.empty, []⟩ = place
  obtain ⟨scope, b⟩ := place
  cases scope with
  | none => rfl
  | some scope =>
    simp only [enterAt, ScopeBuilder.definitions_single, ScopeBuilder.definitionKind]

theorem allAliases_unit (p : ConstPlace) (v w : ConstExpr) (t : SymbolTable) :
    allAliases SymbolTable.rootId (p.unit w).definitions t =
      allAliases SymbolTable.rootId (p.unit v).definitions t :=
  allAliases_fill (fun _ _ => by rw [allTypedefs_single, allTypedefs_single, kindTypedefs,
    kindTypedefs]) SymbolTable.rootId

/-- The declarations of the constant and of what follows it. -/
def ConstPlace.later (p : ConstPlace) : List Declaration :=
  (bif p.site.isOpen then [⟨p.name, .defined .const⟩] else []) ++ p.site.behind

theorem declarations_unit (p : ConstPlace) (v : ConstExpr) :
    (p.unit v).declarations = p.site.ahead ++ p.later := by
  rw [Specification.declarations, ConstPlace.unit, Site.declarations_fill, ConstPlace.later]
  rfl

theorem declarations_front (p : ConstPlace) :
    allDeclarations p.front = p.site.ahead ++
      bif p.site.isOpen then [⟨p.name, .defined .valueBox⟩] else [] := by
  rw [ConstPlace.front, Site.declarations_fill, Site.ahead_front, Site.behind_front,
    Site.isOpen_front, List.append_nil]
  rfl

/-- What is declared ahead and what is declared later has not one symbol. -/
theorem ahead_ne_later {p : ConstPlace} {v : ConstExpr} {t : SymbolTable}
    (entered : Entered t (p.unit v).declarations) (apart : Apart (p.unit v).declarations)
    {first second : Ident} {kind kind' : SymbolKind} {id : SymbolId}
    (ahead : ⟨first, .defined kind⟩ ∈ p.site.ahead)
    (later : ⟨second, .defined kind'⟩ ∈ p.later) (place : t.definedAt? first.span = some id) :
    t.definedAt? second.span ≠ some id := by
  intro other
  rw [declarations_unit] at entered apart
  have same := entered.distinct first kind second kind' id (List.mem_append_left _ ahead)
    (List.mem_append_right _ later) place other
  rw [Apart, List.map_append] at apart
  exact (List.nodup_append.mp apart).2.2 _ (List.mem_map_of_mem ahead) _
    (List.mem_map_of_mem later) (congrArg (·.span.offset) same)

/-! The walk at the place. -/

theorem run_valueBox (p : ConstPlace) (scope : SymbolId) (b : Binding) :
    (definitions scope [⟨p.annotations, .valueBox ⟨p.name, p.type⟩, p.span⟩]).run b =
      let r := (annotations scope p.annotations).run b
      let q := (typeSpec scope p.type).run r.2
      ([⟨r.1, .valueBox ⟨p.name, q.1⟩, p.span⟩], q.2) := by
  rw [run_single, definitionKind]
  rfl

theorem run_const (p : ConstPlace) (scope : SymbolId) (value : ConstExpr) (b : Binding) :
    (definitions scope [⟨p.annotations, .const ⟨p.type, p.name, value⟩, p.span⟩]).run b =
      let r := (annotations scope p.annotations).run b
      let q := (typeSpec scope p.type).run r.2
      let s := (settleConst scope q.1 p.name value).run q.2
      ([⟨r.1, .const ⟨q.1, p.name, s.1⟩, p.span⟩], s.2) := by
  rw [run_single, definitionKind, constDecl_eq_settleConst]
  rfl

/-- Whatever its value, the constant is bound after its annotations and its type. -/
theorem exists_visit (p : ConstPlace) (e : Passage)
    (closed : p.site.isOpen = false → e.scope = none) : ∃ h : Halfway, h.front = e.front ∧
      e.visit [⟨p.annotations, .valueBox ⟨p.name, p.type⟩, p.span⟩] =
        ([⟨h.annotations, .valueBox ⟨p.name, h.type⟩, p.span⟩], h.state) ∧
      ∀ value, ∃ value' b,
        e.visit [⟨p.annotations, .const ⟨p.type, p.name, value⟩, p.span⟩] =
          ([⟨h.annotations, .const ⟨h.type, p.name, value'⟩, p.span⟩], b) ∧
        h.state.errors <+: b.errors ∧
        Settling (bif p.site.isOpen then [⟨p.name, .defined .const⟩] else []) h.state.table
          b.table := by
  obtain ⟨scope, state, front, rest⟩ := e
  cases scope with
  | none =>
    exact ⟨⟨front, p.annotations, p.type, state⟩, rfl, rfl, fun value =>
      ⟨value, state, rfl, List.prefix_refl _, (Settling.refl [] _).mono (List.nil_subset _)⟩⟩
  | some scope =>
    have isOpen : p.site.isOpen = true := by
      by_contra shut
      cases closed (Bool.eq_false_iff.mpr shut)
    let r := (annotations scope p.annotations).run state
    let q := (typeSpec scope p.type).run r.2
    refine ⟨⟨front, r.1, q.1, q.2⟩, rfl, run_valueBox p scope state, fun value => ?_⟩
    have traces := traces_settleConst scope q.1 p.name value
    refine ⟨_, _, run_const p scope value state, ?_, ?_⟩
    · rw [traces.run]
      exact List.prefix_append _ _
    · rw [traces.run, isOpen]
      exact traces.settling _

/-- What follows the place leaves all that was done before it. -/
theorem extends_of_passes {p : ConstPlace} {v : ConstExpr} {t start : SymbolTable} {e : Passage}
    {h : Halfway} (entered : Entered t (p.unit v).declarations)
    (apart : Apart (p.unit v).declarations)
    (passes : Passes SymbolTable.rootId p.site ⟨start, []⟩ e) (front : h.front = e.front)
    (state : SameFrame t h.state.table) {w value : ConstExpr} {b : Binding}
    (aliases : allAliases SymbolTable.rootId (p.unit w).definitions t = start)
    (visit : e.visit [⟨p.annotations, .const ⟨p.type, p.name, w⟩, p.span⟩] =
      ([⟨h.annotations, .const ⟨h.type, p.name, value⟩, p.span⟩], b))
    (errors : h.state.errors <+: b.errors)
    (settling : Settling (bif p.site.isOpen then [⟨p.name, .defined .const⟩] else [])
      h.state.table b.table) : p.Extends h (bindUnit (p.unit w) t) := by
  rw [ConstPlace.unit, passes.bindUnit_eq p.imports aliases, Passage.whole, visit]
  constructor
  case tree => exact ⟨(e.rest b).1, value, (passes.front b).trans front.symm, passes.path b, rfl⟩
  case constants =>
    intro id ahead
    refine (settling.trans (passes.settling b)).constants id fun later mem => ?_
    rw [state.definedAt?]
    by_cases const : t.kind id = .const
    · obtain ⟨name, declared, place⟩ := ahead ((state.kind id).trans const)
      rw [state.definedAt?] at place
      exact ahead_ne_later entered apart declared mem place
    · intro place
      obtain ⟨other, defines⟩ := entered.defined later .const (by
        rw [declarations_unit]
        exact List.mem_append_right _ mem)
      cases defines.place.symm.trans place
      exact const defines.kind_eq
  case errors => exact errors.trans (passes.errors b)

/-- In front of the constant, its symbol is as it was entered. -/
theorem evaluate_of_front {p : ConstPlace} {v : ConstExpr} {t start : SymbolTable}
    (entered : Entered t (p.unit v).declarations) (apart : Apart (p.unit v).declarations)
    (waiting : t.Waiting) (aliases : Settling [] t start) (isOpen : p.site.isOpen = true)
    {q : Evaluation} (evaluated : q ∈ allEvaluations SymbolTable.rootId p.front start)
    {n : ScopedName} {place : Span} {id : SymbolId}
    (reads : Eval.Context.Reads ⟨q.table, q.scope, q.type⟩ n place q.expr)
    (resolved : t.resolve q.scope n = .ok id) (here : t.definedAt? p.name.span = some id) :
    evaluate q.table q.scope q.type q.expr = .error ⟨.usedBeforeDefinition n.text, place⟩ := by
  have settling := aliases.trans
    ((traces_definitions SymbolTable.rootId p.front).tables start q evaluated)
  have declared : ⟨p.name, .defined .const⟩ ∈ p.later := by
    rw [ConstPlace.later, isOpen]
    exact List.mem_cons_self
  have const : t.kind id = .const := by
    obtain ⟨other, defines⟩ := entered.defined p.name .const (by
      rw [declarations_unit]
      exact List.mem_append_right _ declared)
    cases defines.place.symm.trans here
    exact defines.kind_eq
  have unsettled : (q.table.symbol id).constant = (t.symbol id).constant := by
    refine settling.constants id fun name mem other => ?_
    rw [List.nil_append, declarations_front, isOpen] at mem
    have ahead : ⟨name, .defined .const⟩ ∈ p.site.ahead := by simpa using mem
    exact ahead_ne_later entered apart ahead declared other here
  have resolvedThere : q.table.resolve q.scope n = .ok id := by
    rw [settling.frame.resolve]
    exact resolved
  have pending : (q.table.symbol id).constant = .pending := by
    rw [unsettled]
    exact waiting id (by simp) const
  exact evaluate_of_reads reads resolvedThere pending

/-- What fails in front of the constant is reported there. -/
theorem mem_errors_of_front {p : ConstPlace} {start : SymbolTable} {h : Halfway}
    (comes : p.ComesTo start h) {q : Evaluation}
    (evaluated : q ∈ allEvaluations SymbolTable.rootId p.front start) {name : String} {place : Span}
    (failed : evaluate q.table q.scope q.type q.expr =
      .error ⟨.usedBeforeDefinition name, place⟩) :
    ⟨.eval (.usedBeforeDefinition name), place⟩ ∈ h.state.errors := by
  have errors : reports (definitions SymbolTable.rootId p.front) start = h.state.errors := by
    rw [reports, comes]
  have reported : ⟨.eval (.usedBeforeDefinition name), place⟩ ∈ q.errors := by
    rw [Evaluation.errors, exprOutcome, failed]
    exact List.mem_singleton_self _
  have mem := List.mem_flatMap.mpr ⟨q, evaluated, reported⟩
  rw [← (traces_definitions SymbolTable.rootId p.front).errors, errors] at mem
  exact (List.mem_filter.mp mem).1

end Binding

open Binding

/-- Two units that differ in the value of a constant have the same symbols. Binding comes to the
value in one way, and both bound units extend what it has done by then. An expression in front whose
evaluation comes to the constant fails in both. -/
theorem bindUnit_before_const (p : ConstPlace) (v w : ConstExpr)
    (apart : Apart (p.unit v).declarations) :
    let t := (buildScopes (p.unit v)).table
    let start := allAliases SymbolTable.rootId (p.unit v).definitions t
    buildScopes (p.unit w) = buildScopes (p.unit v) ∧
    ∃ h, p.ComesTo start h ∧ p.Extends h (bindUnit (p.unit v) t) ∧
      p.Extends h (bindUnit (p.unit w) t) ∧
      (p.site.isOpen = true → ∀ q ∈ allEvaluations SymbolTable.rootId p.front start,
        ∀ n place, Eval.Context.Reads ⟨q.table, q.scope, q.type⟩ n place q.expr →
        ∀ id, t.resolve q.scope n = .ok id → t.definedAt? p.name.span = some id →
          evaluate q.table q.scope q.type q.expr = .error ⟨.usedBeforeDefinition n.text, place⟩ ∧
          ⟨.eval (.usedBeforeDefinition n.text), place⟩ ∈ h.state.errors) := by
  intro t start
  have entered : Entered t (p.unit v).declarations := entered_buildScopes (p.unit v) apart
  have frame : SameFrame t start := (settling_allAliases t SymbolTable.rootId _).frame
  obtain ⟨e, passes⟩ := exists_passes p.site SymbolTable.rootId ⟨start, []⟩
  obtain ⟨h, front, box, visits⟩ := exists_visit p e passes.closed
  have comes : p.ComesTo start h := by
    rw [ConstPlace.ComesTo, ConstPlace.front, passes.ahead, box, front]
  have state : SameFrame t h.state.table := by
    have settling := (traces_definitions SymbolTable.rootId p.front).settling start
    rw [tableAfter, comes] at settling
    exact frame.trans settling.frame
  refine ⟨buildScopes_unit p v w, h, comes, ?_, ?_, ?_⟩
  · obtain ⟨value, b, visit, errors, settling⟩ := visits v
    exact extends_of_passes entered apart passes front state rfl visit errors settling
  · obtain ⟨value, b, visit, errors, settling⟩ := visits w
    exact extends_of_passes entered apart passes front state (allAliases_unit p v w t) visit
      errors settling
  · intro isOpen q evaluated n place reads id resolved here
    have failed := evaluate_of_front entered apart (waiting_buildScopes _)
      (settling_allAliases t SymbolTable.rootId _) isOpen evaluated reads resolved here
    exact ⟨failed, mem_errors_of_front comes evaluated failed⟩

/-- In `const long A = ::C;`, the use of a constant that follows. -/
def nameAhead : ScopedName := ⟨true, ⟨"C", ⟨17, 1, 1, 18⟩⟩, [], ⟨15, 3, 1, 16⟩⟩

/-- The constant `C` behind one that uses it. -/
def constBehind : ConstPlace where
  imports := []
  site := .beside [⟨[], .const ⟨.primitive .long, ⟨"A", ⟨11, 1, 1, 12⟩⟩,
    .name nameAhead nameAhead.span none⟩, ⟨0, 19, 1, 1⟩⟩] .hole []
  annotations := []
  type := .primitive .long
  name := ⟨"C", ⟨31, 1, 2, 12⟩⟩
  span := ⟨20, 17, 2, 1⟩

theorem bindUnit_before_const_behind :
    let one : ConstExpr := .literal (.integer 1 .decimal) ⟨35, 1, 2, 16⟩ none
    let two : ConstExpr := .literal (.integer 2 .decimal) ⟨35, 1, 2, 16⟩ none
    let t := (buildScopes (constBehind.unit one)).table
    let error : BindingError := ⟨.eval (.usedBeforeDefinition "::C"), nameAhead.span⟩
    Apart (constBehind.unit one).declarations ∧
      error ∈ (bindUnit (constBehind.unit one) t).errors ∧
      error ∈ (bindUnit (constBehind.unit two) t).errors := by
  intro one two t error
  have apart : Apart (constBehind.unit one).declarations := by
    rw [Apart]
    decide
  obtain ⟨-, h, -, first, second, early⟩ := bindUnit_before_const constBehind one two apart
  let start := allAliases SymbolTable.rootId (constBehind.unit one).definitions t
  let q : Evaluation := ⟨start, SymbolTable.rootId, .integer .int32,
    .name nameAhead nameAhead.span none⟩
  have visited : q ∈ allEvaluations SymbolTable.rootId constBehind.front start :=
    List.mem_cons_self
  have reported := (early rfl q visited nameAhead nameAhead.span (.name none) 2 rfl rfl).2
  exact ⟨apart, first.errors.subset reported, second.errors.subset reported⟩

end Idl
