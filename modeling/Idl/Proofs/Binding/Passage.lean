import Idl.Proofs.Binding.Trace
import Idl.Proofs.Scope.Reopen
import Idl.Proofs.Syntax.Site

/-!
How binding passes a place among definitions: what it has come to there depends on what stands in
front of the place, and what it does behind it is one function of where it is then. So a module that
is closed and opened again is bound as the module in one piece, with the same cut through it. Main
statements: `exists_passes` and `exists_bound_cut`.
-/

set_option autoImplicit false

namespace Idl.Binding

/-! Lists. -/

theorem run_definitions_append (scope : SymbolId) (ds es : List Definition) (b : Binding) :
    (definitions scope (ds ++ es)).run b =
      (((definitions scope ds).run b).1 ++
          ((definitions scope es).run ((definitions scope ds).run b).2).1,
        ((definitions scope es).run ((definitions scope ds).run b).2).2) := by
  induction ds generalizing b with
  | nil => rfl
  | cons d ds ih =>
    rw [List.cons_append, definitions, definitions]
    simp only [StateT.run_bind, StateT.run_pure, ih]
    rfl

theorem run_exports_append (scope : SymbolId) (xs ys : List (Export Definition)) (b : Binding) :
    (exports scope (xs ++ ys)).run b =
      (((exports scope xs).run b).1 ++ ((exports scope ys).run ((exports scope xs).run b).2).1,
        ((exports scope ys).run ((exports scope xs).run b).2).2) := by
  induction xs generalizing b with
  | nil => rfl
  | cons x xs ih =>
    rw [List.cons_append]
    cases x <;>
    · rw [exports, exports]
      simp only [StateT.run_bind, StateT.run_pure, ih]
      rfl

/-- Definitions in a body are bound as others are. -/
theorem run_exports_map (scope : SymbolId) (ds : List Definition) (b : Binding) :
    (exports scope (ds.map .definition)).run b =
      (((definitions scope ds).run b).1.map .definition, ((definitions scope ds).run b).2) := by
  induction ds generalizing b with
  | nil => rfl
  | cons d ds ih =>
    rw [List.map_cons, exports, definitions]
    simp only [StateT.run_bind, StateT.run_pure, ih]
    rfl

theorem length_definitions (scope : SymbolId) (ds : List Definition) (b : Binding) :
    ((definitions scope ds).run b).1.length = ds.length := by
  induction ds generalizing b with
  | nil => rfl
  | cons d ds ih =>
    rw [definitions]
    exact congrArg (· + 1) (ih _)

theorem length_exports (scope : SymbolId) (xs : List (Export Definition)) (b : Binding) :
    ((exports scope xs).run b).1.length = xs.length := by
  induction xs generalizing b with
  | nil => rfl
  | cons x xs ih =>
    cases x <;>
    · rw [exports]
      exact congrArg (· + 1) (ih _)

theorem run_close (scope : SymbolId) (owner : Owner) (body : List (Export Definition))
    (b : Binding) :
    (definitionKind scope (owner.close body)).run b =
      let id := (b.table.definedAt? owner.name.span).getD scope
      (owner.close ((exports id body).run b).1, ((exports id body).run b).2) := by
  cases owner <;> rw [Owner.close, definitionKind] <;> rfl

theorem run_module (scope : SymbolId) (name : Ident) (ds : List Definition) (b : Binding) :
    (definitionKind scope (.module ⟨name, ds⟩)).run b =
      match b.table.definedAt? name.span with
      | some id => (.module ⟨name, ((definitions id ds).run b).1⟩, ((definitions id ds).run b).2)
      | none => (.module ⟨name, ds⟩, b) := by
  have looked : (defined? name).run b = (b.table.definedAt? name.span, b) := rfl
  rw [definitionKind, run_bind looked]
  cases b.table.definedAt? name.span <;> rfl

theorem run_single (scope : SymbolId) (as : List AnnotationUse)
    (kind : DefinitionKind Definition) (span : Span) (b : Binding) :
    (definitions scope [⟨as, kind, span⟩]).run b =
      let r := (annotations scope as).run b
      let q := (definitionKind scope kind).run r.2
      ([⟨r.1, q.1, span⟩], q.2) := by
  rw [definitions, definition]
  rfl

/-! The place. -/

/-- How a walk passes a place. -/
structure Passage where
  /-- The scope of the place, unless the walk does not come there. -/
  scope : Option SymbolId
  state : Binding
  /-- What is in front of the place, as bound. -/
  front : Site
  /-- From the state behind the place: what stands around it as bound, and the state at the end. -/
  rest : Binding → Site × Binding

namespace Passage

/-- What the walk makes of the definitions in the place. -/
def visit (e : Passage) (ds : List Definition) : List Definition × Binding :=
  match e.scope with
  | some scope => (definitions scope ds).run e.state
  | none => (ds, e.state)

theorem visit_nil (e : Passage) : e.visit [] = ([], e.state) := by
  rw [visit]
  split <;> rfl

/-- The walk over all that stands around a place. -/
def whole (e : Passage) (ds : List Definition) : List Definition × Binding :=
  ((e.rest (e.visit ds).2).1.fill (e.visit ds).1, (e.rest (e.visit ds).2).2)

end Passage

/-- The walk over the site passes its place so. -/
structure Passes (scope : SymbolId) (c : Site) (b : Binding) (e : Passage) : Prop where
  whole : ∀ ds, (definitions scope (c.fill ds)).run b = e.whole ds
  ahead : ∀ ds, (definitions scope (c.front.fill ds)).run b =
    (e.front.fill (e.visit ds).1, (e.visit ds).2)
  front : ∀ b', (e.rest b').1.front = e.front
  path : ∀ b', (e.rest b').1.path = c.path
  errors : ∀ b', b'.errors <+: (e.rest b').2.errors
  settling : ∀ b', Settling c.behind b'.table (e.rest b').2.table
  closed : c.isOpen = false → e.scope = none

namespace Passes

variable {scope : SymbolId} {inner : Site} {b : Binding} {e : Passage}

theorem hole (scope : SymbolId) (b : Binding) :
    Passes scope .hole b ⟨some scope, b, .hole, fun b' => (.hole, b')⟩ := by
  constructor
  case whole => exact fun _ => rfl
  case ahead => exact fun _ => rfl
  case front => exact fun _ => rfl
  case path => exact fun _ => rfl
  case errors => exact fun _ => List.prefix_refl _
  case settling => exact fun _ => .refl _ _
  case closed => exact fun closed => by cases closed

theorem beside {before : List Definition} (after : List Definition)
    (passes : Passes scope inner ((definitions scope before).run b).2 e) :
    ∃ e, Passes scope (.beside before inner after) b e := by
  let bound := ((definitions scope before).run b).1
  let behind (b' : Binding) := (definitions scope after).run (e.rest b').2
  refine ⟨⟨e.scope, e.state, .beside bound e.front [], fun b' =>
    (.beside bound (e.rest b').1 (behind b').1, (behind b').2)⟩, ?_⟩
  have traces := traces_definitions scope after
  have run (b' : Binding) := traces.run (e.rest b').2
  constructor
  case whole =>
    intro ds
    simp only [Site.fill, run_definitions_append, passes.whole]
    rfl
  case ahead =>
    intro ds
    simp only [Site.front, Site.fill, run_definitions_append, passes.ahead]
    rfl
  case front => exact fun b' => congrArg (Site.beside bound · []) (passes.front b')
  case path =>
    intro b'
    simp only [Site.path, passes.path, bound, length_definitions]
  case errors =>
    intro b'
    simp only [behind, run]
    exact (passes.errors b').trans (List.prefix_append _ _)
  case settling =>
    intro b'
    simp only [behind, run]
    exact (passes.settling b').trans (traces.settling _)
  case closed => exact passes.closed

theorem module {id : SymbolId} {as : List AnnotationUse} {name : Ident} (span : Span)
    (found : ((annotations scope as).run b).2.table.definedAt? name.span = some id)
    (passes : Passes id inner ((annotations scope as).run b).2 e) :
    ∃ e, Passes scope (.module as name inner span) b e := by
  let bound := ((annotations scope as).run b).1
  refine ⟨⟨e.scope, e.state, .module bound name e.front span, fun b' =>
    (.module bound name (e.rest b').1 span, (e.rest b').2)⟩, ?_⟩
  constructor
  case whole =>
    intro ds
    simp only [Site.fill, run_single, run_module, found, passes.whole]
    rfl
  case ahead =>
    intro ds
    simp only [Site.front, Site.fill, run_single, run_module, found, passes.ahead]
    rfl
  case front => exact fun b' => congrArg (Site.module bound name · span) (passes.front b')
  case path => exact fun b' => congrArg (none :: ·) (passes.path b')
  case errors => exact passes.errors
  case settling => exact passes.settling
  case closed => exact passes.closed

/-- The walk does not come into a module that it does not know. -/
theorem unentered {as : List AnnotationUse} {name : Ident} (inner : Site) (span : Span)
    (unknown : ((annotations scope as).run b).2.table.definedAt? name.span = none) :
    ∃ e, Passes scope (.module as name inner span) b e := by
  let r := (annotations scope as).run b
  refine ⟨⟨none, r.2, .module r.1 name inner.front span, fun b' =>
    (.module r.1 name inner span, b')⟩, ?_⟩
  constructor
  case whole =>
    intro ds
    simp only [Site.fill, run_single, run_module, unknown]
    rfl
  case ahead =>
    intro ds
    simp only [Site.front, Site.fill, run_single, run_module, unknown]
    rfl
  case front => exact fun _ => rfl
  case path => exact fun _ => rfl
  case errors => exact fun _ => List.prefix_refl _
  case settling => exact fun b' => .refl _ _
  case closed => exact fun _ => rfl

theorem body {as : List AnnotationUse} {owner : Owner} {before : List (Export Definition)}
    (after : List (Export Definition)) (span : Span) {id : SymbolId} {b₁ : Binding}
    (bound : ((annotations scope as).run b).2 = b₁)
    (found : (b₁.table.definedAt? owner.name.span).getD scope = id)
    (passes : Passes id inner ((exports id before).run b₁).2 e) :
    ∃ e, Passes scope (.body as owner before inner after span) b e := by
  let as' := ((annotations scope as).run b).1
  let before' := ((exports id before).run b₁).1
  let behind (b' : Binding) := (exports id after).run (e.rest b').2
  refine ⟨⟨e.scope, e.state, .body as' owner before' e.front [] span, fun b' =>
    (.body as' owner before' (e.rest b').1 (behind b').1 span, (behind b').2)⟩, ?_⟩
  have traces := traces_exports id after
  have run (b' : Binding) := traces.run (e.rest b').2
  constructor
  case whole =>
    intro ds
    simp only [Site.fill, run_single, bound, run_close, found, run_exports_append,
      run_exports_map, passes.whole]
    rfl
  case ahead =>
    intro ds
    simp only [Site.front, Site.fill, run_single, bound, run_close, found,
      run_exports_append, run_exports_map, passes.ahead]
    rfl
  case front =>
    exact fun b' => congrArg (Site.body as' owner before' · [] span) (passes.front b')
  case path =>
    intro b'
    simp only [Site.path, passes.path, before', length_exports]
  case errors =>
    intro b'
    simp only [behind, run]
    exact (passes.errors b').trans (List.prefix_append _ _)
  case settling =>
    intro b'
    simp only [behind, run]
    exact (passes.settling b').trans (traces.settling _)
  case closed => exact passes.closed

theorem annotationDecl (scope : SymbolId) (as : List AnnotationUse) (name : Ident)
    (members : List AnnotationMember) (inner : Site) (span : Span) (b : Binding) :
    ∃ e, Passes scope (.annotationDecl as name members inner span) b e := by
  let r := (annotations scope as).run b
  let whole : Site := .annotationDecl r.1 name members inner span
  refine ⟨⟨none, r.2, whole, fun b' => (whole, b')⟩, ?_⟩
  have run (ds : List Definition) :
      (definitions scope ((Site.annotationDecl as name members inner span).fill ds)).run b =
        (whole.fill ds, r.2) := by
    simp only [Site.fill, run_single]
    rw [definitionKind]
    rfl
  constructor
  case whole => exact run
  case ahead => exact run
  case front => exact fun _ => rfl
  case path => exact fun _ => rfl
  case errors => exact fun _ => List.prefix_refl _
  case settling => exact fun b' => .refl _ _
  case closed => exact fun _ => rfl

end Passes

/-- A walk passes each place in one way, whatever is in it. -/
theorem exists_passes (c : Site) (scope : SymbolId) (b : Binding) :
    ∃ e, Passes scope c b e := by
  induction c generalizing scope b with
  | hole => exact ⟨_, .hole scope b⟩
  | beside before inner after ih =>
    obtain ⟨e, passes⟩ := ih scope ((definitions scope before).run b).2
    exact passes.beside after
  | module as name inner span ih =>
    cases found : ((annotations scope as).run b).2.table.definedAt? name.span with
    | none => exact Passes.unentered inner span found
    | some id =>
      obtain ⟨e, passes⟩ := ih id ((annotations scope as).run b).2
      exact passes.module span found
  | body as owner before inner after span ih =>
    obtain ⟨e, passes⟩ := ih _ ((exports _ before).run ((annotations scope as).run b).2).2
    exact passes.body after span rfl rfl
  | annotationDecl as name members inner span =>
    exact Passes.annotationDecl scope as name members inner span b

namespace Passes

variable {c : Site} {scope : SymbolId} {b : Binding} {e : Passage}

/-- Names are found at the place as they were before the walk. -/
theorem frame (passes : Passes scope c b e) : SameFrame b.table e.state.table := by
  have walked := (traces_definitions scope (c.front.fill [])).frame b
  rwa [passes.ahead, e.visit_nil] at walked

theorem isOpen (passes : Passes scope c b e) {id : SymbolId} (comes : e.scope = some id) :
    c.isOpen = true := by
  by_contra shut
  rw [passes.closed (Bool.eq_false_iff.mpr shut)] at comes
  cases comes

end Passes

/-! Typedefs around a place. -/

section

variable {t : SymbolTable}

theorem allTypedefs_append (scope : SymbolId) (ds es : List Definition) :
    allTypedefs t scope (ds ++ es) = allTypedefs t scope ds ++ allTypedefs t scope es := by
  induction ds with
  | nil => rfl
  | cons d ds ih => rw [List.cons_append, allTypedefs, allTypedefs, ih, List.append_assoc]

theorem exportTypedefs_append (scope : SymbolId) (xs ys : List (Export Definition)) :
    exportTypedefs t scope (xs ++ ys) = exportTypedefs t scope xs ++ exportTypedefs t scope ys := by
  induction xs with
  | nil => rfl
  | cons x xs ih =>
    rw [List.cons_append]
    cases x <;> simp only [exportTypedefs, ih, List.append_assoc]

theorem exportTypedefs_map (scope : SymbolId) (ds : List Definition) :
    exportTypedefs t scope (ds.map .definition) = allTypedefs t scope ds := by
  induction ds with
  | nil => rfl
  | cons d ds ih => rw [List.map_cons, exportTypedefs, allTypedefs, ih]

theorem typedefs_close (scope : SymbolId) (owner : Owner) (body : List (Export Definition)) :
    kindTypedefs t scope (owner.close body) =
      exportTypedefs t ((t.definedAt? owner.name.span).getD scope) body := by
  cases owner <;> rw [Owner.close, kindTypedefs] <;> rfl

theorem allTypedefs_single (scope : SymbolId) (as : List AnnotationUse)
    (kind : DefinitionKind Definition) (span : Span) :
    allTypedefs t scope [⟨as, kind, span⟩] = kindTypedefs t scope kind := by
  rw [allTypedefs, Definition.typedefs, allTypedefs, List.append_nil]

/-- Definitions with the same typedefs may stand for each other. -/
theorem allTypedefs_fill {ds es : List Definition} {c : Site}
    (same : c.isOpen = true → ∀ scope, allTypedefs t scope ds = allTypedefs t scope es)
    (scope : SymbolId) : allTypedefs t scope (c.fill ds) = allTypedefs t scope (c.fill es) := by
  induction c generalizing scope with
  | hole => exact same rfl scope
  | beside before inner after ih =>
    rw [Site.fill, Site.fill]
    simp only [allTypedefs_append, ih same]
  | module as name inner span ih =>
    rw [Site.fill, Site.fill, allTypedefs_single, allTypedefs_single, kindTypedefs,
      kindTypedefs]
    split
    · exact ih same _
    · rfl
  | body as owner before inner after span ih =>
    rw [Site.fill, Site.fill, allTypedefs_single, allTypedefs_single, typedefs_close,
      typedefs_close]
    simp only [exportTypedefs_append, exportTypedefs_map, ih same]
  | annotationDecl as name members inner span =>
    rw [Site.fill, Site.fill, allTypedefs_single, allTypedefs_single, kindTypedefs,
      kindTypedefs]

theorem allAliases_fill {ds es : List Definition} {c : Site}
    (same : c.isOpen = true → ∀ scope, allTypedefs t scope ds = allTypedefs t scope es)
    (scope : SymbolId) : allAliases scope (c.fill ds) t = allAliases scope (c.fill es) t := by
  rw [allAliases_eq t scope _ t (.refl t), allAliases_eq t scope _ t (.refl t),
    allTypedefs_fill same]

/-- How a unit is bound, from the way in which the walk passes a place in it. -/
theorem Passes.bindUnit_eq {c : Site} {start : SymbolTable} {e : Passage} {ds : List Definition}
    (passes : Passes SymbolTable.rootId c ⟨start, []⟩ e) (imports : List Import)
    (aliases : allAliases SymbolTable.rootId (c.fill ds) t = start) :
    bindUnit ⟨imports, c.fill ds⟩ t =
      ⟨⟨imports, (e.whole ds).1⟩, (e.whole ds).2.table, (e.whole ds).2.errors⟩ := by
  have bound (s : Specification) : bindUnit s t =
      let r := (definitions SymbolTable.rootId s.definitions).run
        ⟨allAliases SymbolTable.rootId s.definitions t, []⟩
      ⟨⟨s.imports, r.1⟩, r.2.table, r.2.errors⟩ := rfl
  simp only [bound, aliases, passes.whole]

end

/-! Modules that are closed and opened again. -/

variable {p : ModuleCut}

/-- Both identifiers of the module lead to one symbol. -/
def OneModule (p : ModuleCut) (t : SymbolTable) : Prop :=
  t.definedAt? p.again.span = t.definedAt? p.name.span

theorem OneModule.congr {t u : SymbolTable} (one : OneModule p t) (same : SameFrame t u) :
    OneModule p u := by
  rw [OneModule, same.definedAt?, same.definedAt?]
  exact one

theorem typedefs_pieces {t : SymbolTable} (one : OneModule p t) (scope : SymbolId) :
    allTypedefs t scope p.pieces = allTypedefs t scope p.piece := by
  rw [ModuleCut.pieces, ModuleCut.piece, allTypedefs, Definition.typedefs, allTypedefs_single,
    allTypedefs_single, kindTypedefs, kindTypedefs, kindTypedefs, one]
  cases t.definedAt? p.name.span with
  | none => rfl
  | some id => exact (allTypedefs_append id p.first p.second).symm

/-- Binding makes of a module in one piece, and of one that is opened again, a module with the same
cut through it. -/
theorem exists_cut {e : Passage} (one : ∀ id, e.scope = some id → OneModule p e.state.table) :
    ∃ (q : ModuleCut) (b : Binding), e.visit p.piece = (q.piece, b) ∧
      e.visit p.pieces = (q.pieces, b) := by
  obtain ⟨scope, state, front, rest⟩ := e
  cases scope with
  | none => exact ⟨p, state, rfl, rfl⟩
  | some scope =>
    have table : ((annotations scope p.annotations).run state).2.table = state.table :=
      congrArg (fun x => x.2.table) ((evaluates_annotations scope p.annotations).run state)
    have again : OneModule p ((annotations scope p.annotations).run state).2.table := by
      rw [table]
      exact one scope rfl
    have apart : p.pieces = [⟨p.annotations, .module ⟨p.name, p.first⟩, p.firstSpan⟩] ++
      [⟨[], .module ⟨p.again, p.second⟩, p.secondSpan⟩] := rfl
    have unannotated (b : Binding) : (annotations scope []).run b = ([], b) := rfl
    simp only [Passage.visit, apart, ModuleCut.piece, run_definitions_append, run_single,
      run_module, unannotated]
    generalize (annotations scope p.annotations).run state = r at again ⊢
    obtain ⟨as, b⟩ := r
    cases found : b.table.definedAt? p.name.span with
    | none =>
      refine ⟨{ p with annotations := as }, b, rfl, ?_⟩
      simp only [again.trans found]
      rfl
    | some id =>
      have same := (traces_definitions id p.first).frame b
      dsimp only
      generalize (definitions id p.first).run b = x at same ⊢
      have found' := (again.congr same).trans ((same.definedAt? p.name.span).trans found)
      let y := (definitions id p.second).run x.2
      refine ⟨{ p with annotations := as, first := x.1, second := y.1 }, y.2, rfl, ?_⟩
      simp only [found']
      rfl

/-- A unit in which a module is opened again is bound as the one with the module in one piece. -/
theorem exists_bound_cut {t : SymbolTable} (one : p.site.isOpen = true → OneModule p t) :
    ∃ (q : ModuleCut) (u : SymbolTable) (errors : List BindingError),
      bindUnit p.whole t = ⟨q.whole, u, errors⟩ ∧ bindUnit p.parts t = ⟨q.parts, u, errors⟩ := by
  let start := allAliases SymbolTable.rootId p.whole.definitions t
  have aliases : allAliases SymbolTable.rootId p.parts.definitions t = start :=
    allAliases_fill (fun isOpen => typedefs_pieces (one isOpen)) SymbolTable.rootId
  have ahead : SameFrame t start := (settling_allAliases t SymbolTable.rootId _).frame
  obtain ⟨e, passes⟩ := exists_passes p.site SymbolTable.rootId ⟨start, []⟩
  obtain ⟨q, b, piece, pieces⟩ := exists_cut fun id comes =>
    (one (passes.isOpen comes)).congr (ahead.trans passes.frame)
  let around := e.rest b
  let cut : ModuleCut := { q with imports := p.imports, site := around.1 }
  refine ⟨cut, around.2.table, around.2.errors, ?_, ?_⟩
  · rw [ModuleCut.whole, passes.bindUnit_eq p.imports rfl, Passage.whole, piece]
    rfl
  · rw [ModuleCut.parts, passes.bindUnit_eq p.imports aliases, Passage.whole, pieces]
    rfl

end Idl.Binding
