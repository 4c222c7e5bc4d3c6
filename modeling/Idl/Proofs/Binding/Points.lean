import Idl.Proofs.Binding.Passage
import Idl.Proofs.Binding.Typed

/-!
The points of the walk: each expression is evaluated at a place among the definitions, over the
constants that the walk has when it comes to the place; and constants are well typed there. Main
statements: `isAt_all` and `Passes.sound`.
-/

set_option autoImplicit false

namespace Idl.Binding

/-! The state at a place. -/

/-- The state in which a walk comes to the place: that behind all that stands in front of it. -/
def stateAt (scope : SymbolId) (c : Site) (b : Binding) : Binding :=
  ((definitions scope (c.front.fill [])).run b).2

section

variable (scope : SymbolId) (c : Site) (b : Binding)

theorem stateAt_beside (before after : List Definition) :
    stateAt scope (.beside before c after) b =
      stateAt scope c ((definitions scope before).run b).2 := by
  simp only [stateAt, Site.front, Site.fill, List.append_nil, run_definitions_append]

theorem stateAt_module {id : SymbolId} {as : List AnnotationUse} {name : Ident} (span : Span)
    (found : ((annotations scope as).run b).2.table.definedAt? name.span = some id) :
    stateAt scope (.module as name c span) b = stateAt id c ((annotations scope as).run b).2 := by
  simp only [stateAt, Site.front, Site.fill, run_single, run_module, found]

theorem stateAt_body {id : SymbolId} {as : List AnnotationUse} {owner : Owner} (span : Span)
    (before after : List (Export Definition))
    (found : (((annotations scope as).run b).2.table.definedAt? owner.name.span).getD scope = id) :
    stateAt scope (.body as owner before c after span) b =
      stateAt id c ((exports id before).run ((annotations scope as).run b).2).2 := by
  simp only [stateAt, Site.front, Site.fill, List.append_nil, run_single, run_close, found,
    run_exports_append, run_exports_map]

end

/-! Where expressions are evaluated. -/

/-- The expression is evaluated at a place among the definitions, over the constants with which a
walk comes there. -/
def Evaluation.IsAt (q : Evaluation) (scope : SymbolId) (ds : List Definition) (b : Binding) :
    Prop :=
  ∃ (c : Site) (inside : List Definition), ds = c.fill inside ∧
    SameSlots q.table (stateAt scope c b).table

/-- The same for a place in a body. -/
def Evaluation.IsInside (q : Evaluation) (scope : SymbolId) (es : List (Export Definition))
    (b : Binding) : Prop :=
  ∃ (before : List (Export Definition)) (c : Site) (inside : List Definition)
    (after : List (Export Definition)), es = before ++ (c.fill inside).map .definition ++ after ∧
      SameSlots q.table (stateAt scope c ((exports scope before).run b).2).table

section

variable {q : Evaluation} {scope : SymbolId} {b : Binding}

namespace Evaluation

theorem isAt_front (same : SameSlots q.table b.table) (scope : SymbolId)
    (ds : List Definition) : q.IsAt scope ds b :=
  ⟨.hole, ds, rfl, same⟩

theorem IsAt.before {ds : List Definition} (isAt : q.IsAt scope ds b) (after : List Definition) :
    q.IsAt scope (ds ++ after) b := by
  obtain ⟨c, inside, rfl, same⟩ := isAt
  exact ⟨.beside [] c after, inside, rfl, by rwa [stateAt_beside]⟩

theorem IsAt.after (ds : List Definition) {es : List Definition}
    (isAt : q.IsAt scope es ((definitions scope ds).run b).2) : q.IsAt scope (ds ++ es) b := by
  obtain ⟨c, inside, rfl, same⟩ := isAt
  refine ⟨.beside ds c [], inside, ?_, by rwa [stateAt_beside]⟩
  rw [Site.fill, List.append_nil]

theorem isInside_front (same : SameSlots q.table b.table) (scope : SymbolId)
    (es : List (Export Definition)) : q.IsInside scope es b :=
  ⟨[], .hole, [], es, rfl, same⟩

theorem IsAt.isInside {ds : List Definition} (isAt : q.IsAt scope ds b)
    (after : List (Export Definition)) :
    q.IsInside scope (ds.map .definition ++ after) b := by
  obtain ⟨c, inside, rfl, same⟩ := isAt
  exact ⟨[], c, inside, after, rfl, same⟩

theorem IsInside.after (es : List (Export Definition)) {fs : List (Export Definition)}
    (isInside : q.IsInside scope fs ((exports scope es).run b).2) :
    q.IsInside scope (es ++ fs) b := by
  obtain ⟨before, c, inside, after, rfl, same⟩ := isInside
  refine ⟨es ++ before, c, inside, after, by simp only [List.append_assoc], ?_⟩
  rwa [run_exports_append]

/-- A place in a body is one among the definitions. -/
theorem isAt_body (as : List AnnotationUse) (owner : Owner) {body : List (Export Definition)}
    (span : Span) (inside : ∀ b' : Binding, b'.table = b.table →
      q.IsInside ((b.table.definedAt? owner.name.span).getD scope) body b') :
    q.IsAt scope [⟨as, owner.close body, span⟩] b := by
  have unchanged : ((annotations scope as).run b).2.table = b.table := by
    rw [(evaluates_annotations scope as).run]
  obtain ⟨before, c, ds, after, rfl, same⟩ := inside _ unchanged
  refine ⟨.body as owner before c after span, ds, rfl, ?_⟩
  rwa [stateAt_body scope c b span before after (congrArg (fun t =>
    (SymbolTable.definedAt? t owner.name.span).getD scope) unchanged)]

end Evaluation

theorem Evaluates.same {α : Type} {p : BindM α} {qs : SymbolTable → List Evaluation}
    (evaluates : Evaluates p qs) {t : SymbolTable} (mem : q ∈ qs t) : SameSlots q.table t :=
  fun id => by rw [evaluates.tables t q mem]

/-- A step that settles no constant evaluates over the constants that it starts with. -/
theorem Traces.same {α : Type} {p : BindM α} {qs : SymbolTable → List Evaluation}
    (traces : Traces [] p qs) {t : SymbolTable} (mem : q ∈ qs t) : SameSlots q.table t :=
  fun id => (traces.tables t q mem).constants id fun _ none => by cases none

theorem same_const {type : TypeSpec} {value : ConstExpr} {t : SymbolTable}
    (mem : q ∈ constEvaluations scope type value t) : SameSlots q.table t := by
  obtain ⟨constType, -, rfl⟩ := List.mem_map.mp mem
  exact fun _ => rfl

end

mutual

theorem isAt_definition (scope : SymbolId) : (d : Definition) → ∀ b : Binding,
    ∀ q ∈ definitionEvaluations scope d b.table, q.IsAt scope [d] b
  | ⟨as, kind, span⟩, b, q, mem => by
    rw [definitionEvaluations] at mem
    rcases List.mem_append.mp mem with mem | mem
    · exact Evaluation.isAt_front ((evaluates_annotations scope as).same mem) scope _
    · exact isAt_kind scope as span kind b q mem

theorem isAt_kind (scope : SymbolId) (as : List AnnotationUse) (span : Span) :
    (kind : DefinitionKind Definition) → ∀ b : Binding,
    ∀ q ∈ kindEvaluations scope kind b.table, q.IsAt scope [⟨as, kind, span⟩] b
  | .module ⟨name, ds⟩, b, q, mem => by
    rw [kindEvaluations] at mem
    have unchanged : ((annotations scope as).run b).2.table = b.table := by
      rw [(evaluates_annotations scope as).run]
    split at mem
    · next id found =>
      rw [← unchanged] at found mem
      obtain ⟨c, inside, rfl, same⟩ := isAt_all id ds _ q mem
      refine ⟨.module as name c span, inside, rfl, ?_⟩
      rwa [stateAt_module scope c b span found]
    · cases mem
  | .struct s, b, q, mem => by
    rw [kindEvaluations] at mem
    exact Evaluation.isAt_front ((evaluates_typeSpec scope _).same mem) scope _
  | .union u, b, q, mem => by
    rw [kindEvaluations] at mem
    exact Evaluation.isAt_front ((evaluates_typeSpec scope _).same mem) scope _
  | .enum e, b, q, mem => by
    rw [kindEvaluations] at mem
    exact Evaluation.isAt_front ((evaluates_typeSpec scope _).same mem) scope _
  | .bitset s, b, q, mem => by
    rw [kindEvaluations] at mem
    exact Evaluation.isAt_front ((evaluates_typeSpec scope _).same mem) scope _
  | .bitmask s, b, q, mem => by
    rw [kindEvaluations] at mem
    exact Evaluation.isAt_front ((evaluates_typeSpec scope _).same mem) scope _
  | .typedef d, b, q, mem => by
    rw [kindEvaluations] at mem
    exact Evaluation.isAt_front ((traces_typedef scope d []).same mem) scope _
  | .const d, b, q, mem => by
    rw [kindEvaluations] at mem
    rcases List.mem_append.mp mem with mem | mem
    · exact Evaluation.isAt_front ((evaluates_typeSpec scope _).same mem) scope _
    · exact Evaluation.isAt_front (same_const mem) scope _
  | .exception d, b, q, mem => by
    rw [kindEvaluations] at mem
    exact Evaluation.isAt_front ((evaluates_members _ d.members).same mem) scope _
  | .interface ⟨name, qualifier, bases, body⟩, b, q, mem => by
    rw [kindEvaluations] at mem
    exact Evaluation.isAt_body as (.interface name qualifier bases) span fun b' same =>
      isInside_exports _ body b' q (same ▸ mem)
  | .value ⟨name, qualifier, truncatable, bases, supports, body⟩, b, q, mem => by
    rw [kindEvaluations] at mem
    exact Evaluation.isAt_body as (.value name qualifier truncatable bases supports) span
      fun b' same => isInside_exports _ body b' q (same ▸ mem)
  | .event ⟨name, qualifier, truncatable, bases, supports, body⟩, b, q, mem => by
    rw [kindEvaluations] at mem
    exact Evaluation.isAt_body as (.event name qualifier truncatable bases supports) span
      fun b' same => isInside_exports _ body b' q (same ▸ mem)
  | .valueBox d, b, q, mem => by
    rw [kindEvaluations] at mem
    exact Evaluation.isAt_front ((evaluates_typeSpec scope d.type).same mem) scope _
  | .component ⟨name, base, supports, body⟩, b, q, mem => by
    rw [kindEvaluations] at mem
    exact Evaluation.isAt_body as (.component name base supports) span fun b' same =>
      isInside_exports _ body b' q (same ▸ mem)
  | .home ⟨name, base, supports, manages, key, body⟩, b, q, mem => by
    rw [kindEvaluations] at mem
    exact Evaluation.isAt_body as (.home name base supports manages key) span fun b' same =>
      isInside_exports _ body b' q (same ▸ mem)
  | .native _, _, _, mem => by rw [kindEvaluations] at mem; cases mem
  | .forward _, _, _, mem => by rw [kindEvaluations] at mem; cases mem
  | .typeId _, _, _, mem => by rw [kindEvaluations] at mem; cases mem
  | .typePrefix _, _, _, mem => by rw [kindEvaluations] at mem; cases mem
  | .annotationDecl _, _, _, mem => by rw [kindEvaluations] at mem; cases mem

theorem isAt_all (scope : SymbolId) : (ds : List Definition) → ∀ b : Binding,
    ∀ q ∈ allEvaluations scope ds b.table, q.IsAt scope ds b
  | [], _, _, mem => by rw [allEvaluations] at mem; cases mem
  | d :: ds, b, q, mem => by
    rw [allEvaluations] at mem
    rcases List.mem_append.mp mem with mem | mem
    · exact (isAt_definition scope d b q mem).before ds
    · have behind : ((definitions scope [d]).run b).2.table =
          tableAfter (definition scope d) b.table :=
        congrArg (fun r => r.2.table) ((traces_definition scope d).run b)
      rw [← behind] at mem
      exact Evaluation.IsAt.after [d] (isAt_all scope ds _ q mem)

theorem isInside_exports (scope : SymbolId) : (es : List (Export Definition)) → ∀ b : Binding,
    ∀ q ∈ exportEvaluations scope es b.table, q.IsInside scope es b
  | [], _, _, mem => by rw [exportEvaluations] at mem; cases mem
  | .definition d :: rest, b, q, mem => by
    rw [exportEvaluations] at mem
    rcases List.mem_append.mp mem with mem | mem
    · exact (isAt_definition scope d b q mem).isInside rest
    · have behind : ((exports scope [.definition d]).run b).2.table =
          tableAfter (definition scope d) b.table :=
        congrArg (fun r => r.2.table) ((traces_definition scope d).run b)
      rw [← behind] at mem
      exact (isInside_exports scope rest _ q mem).after [.definition d]
  | .stateMember m :: rest, b, q, mem => by
    rw [exportEvaluations] at mem
    rcases List.mem_append.mp mem with mem | mem
    · exact Evaluation.isInside_front ((evaluates_members scope [m.member]).same mem) scope _
    · have behind : ((exports scope [.stateMember m]).run b).2.table = b.table :=
        congrArg (fun r => r.2.table) ((evaluates_stateMember scope m).run b)
      rw [← behind] at mem
      exact (isInside_exports scope rest _ q mem).after [.stateMember m]
  | .attribute a :: rest, b, q, mem => by
    rw [exportEvaluations] at mem
    exact (isInside_exports scope rest b q mem).after [.attribute a]
  | .operation o :: rest, b, q, mem => by
    rw [exportEvaluations] at mem
    exact (isInside_exports scope rest b q mem).after [.operation o]
  | .initializer i :: rest, b, q, mem => by
    rw [exportEvaluations] at mem
    exact (isInside_exports scope rest b q mem).after [.initializer i]
  | .port p :: rest, b, q, mem => by
    rw [exportEvaluations] at mem
    exact (isInside_exports scope rest b q mem).after [.port p]

end

/-! Soundness there. -/

variable {N : SymbolId → Nat → String → Prop}

namespace Passes

variable {scope : SymbolId} {c : Site} {b : Binding} {e : Passage}

theorem state_eq (passes : Passes scope c b e) : stateAt scope c b = e.state := by
  rw [stateAt, passes.ahead, e.visit_nil]

/-- A walk that starts in a sound state is in one when it passes a place, and what it has bound in
front of the place has well typed values. -/
theorem sound (passes : Passes scope c b e) (sound : Sound N b)
    (values : AllTyped N (allConstants (c.front.fill []))) :
    Sound N e.state ∧ AllTyped N (allConstants (e.front.fill [])) := by
  have walked := keeps_definitions scope _ values b sound
  rwa [passes.ahead, e.visit_nil] at walked

end Passes

end Idl.Binding
