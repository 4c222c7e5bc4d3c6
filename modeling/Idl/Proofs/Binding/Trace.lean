import Idl.Proofs.Binding.EchoUnit
import Idl.Proofs.Binding.Evaluation

/-!
What binding changes in a symbol table, whatever it reports, and which expressions it evaluates on
the way. Definitions only settle the constants and typedefs that they declare. Main statements:
`traces_definitions` and `settling_bindUnit`.
-/

set_option autoImplicit false

namespace Idl.Binding

/-- The table that a step leaves. -/
def tableAfter {α : Type} (p : BindM α) (t : SymbolTable) : SymbolTable := (p.run ⟨t, []⟩).2.table

/-! The evaluations of definitions, each over the table as it is by then. -/

def declaratorEvaluations (scope : SymbolId) (type : TypeSpec) :
    List Declarator → SymbolTable → List Evaluation
  | [], _ => []
  | d :: ds, t => sizeEvaluations t scope d.dims ++
    declaratorEvaluations scope type ds (tableAfter (typedefDeclarator scope type d) t)

def constEvaluations (scope : SymbolId) (type : TypeSpec) (value : ConstExpr) (t : SymbolTable) :
    List Evaluation :=
  (t.constType? type).toList.map fun type => ⟨t, scope, type, value⟩

mutual

def definitionEvaluations (scope : SymbolId) : Definition → SymbolTable → List Evaluation
  | ⟨as, kind, _⟩, t => annotationEvaluations t scope as ++ kindEvaluations scope kind t

def kindEvaluations (scope : SymbolId) :
    DefinitionKind Definition → SymbolTable → List Evaluation
  | .module ⟨name, ds⟩, t =>
    match t.definedAt? name.span with
    | some id => allEvaluations id ds t
    | none => []
  | .struct s, t => typeEvaluations t scope (.struct s)
  | .union u, t => typeEvaluations t scope (.union u)
  | .enum e, t => typeEvaluations t scope (.enum e)
  | .bitset s, t => typeEvaluations t scope (.bitset s)
  | .bitmask s, t => typeEvaluations t scope (.bitmask s)
  | .typedef d, t => typeEvaluations t scope d.type ++
    declaratorEvaluations scope (result (typeSpec scope d.type) t) d.declarators t
  | .const d, t => typeEvaluations t scope d.type ++
    constEvaluations scope (result (typeSpec scope d.type) t) d.value t
  | .exception d, t => memberEvaluations t ((t.definedAt? d.name.span).getD scope) d.members
  | .interface ⟨name, _, _, body⟩, t =>
    exportEvaluations ((t.definedAt? name.span).getD scope) body t
  | .value ⟨name, _, _, _, _, body⟩, t =>
    exportEvaluations ((t.definedAt? name.span).getD scope) body t
  | .event ⟨name, _, _, _, _, body⟩, t =>
    exportEvaluations ((t.definedAt? name.span).getD scope) body t
  | .valueBox d, t => typeEvaluations t scope d.type
  | .component ⟨name, _, _, body⟩, t =>
    exportEvaluations ((t.definedAt? name.span).getD scope) body t
  | .home ⟨name, _, _, _, _, body⟩, t =>
    exportEvaluations ((t.definedAt? name.span).getD scope) body t
  | .native _, _ => []
  | .forward _, _ => []
  | .typeId _, _ => []
  | .typePrefix _, _ => []
  | .annotationDecl _, _ => []

def allEvaluations (scope : SymbolId) : List Definition → SymbolTable → List Evaluation
  | [], _ => []
  | d :: ds, t => definitionEvaluations scope d t ++
    allEvaluations scope ds (tableAfter (definition scope d) t)

def exportEvaluations (scope : SymbolId) :
    List (Export Definition) → SymbolTable → List Evaluation
  | [], _ => []
  | .definition d :: rest, t => definitionEvaluations scope d t ++
    exportEvaluations scope rest (tableAfter (definition scope d) t)
  | .stateMember m :: rest, t =>
    memberEvaluations t scope [m.member] ++ exportEvaluations scope rest t
  | .attribute _ :: rest, t => exportEvaluations scope rest t
  | .operation _ :: rest, t => exportEvaluations scope rest t
  | .initializer _ :: rest, t => exportEvaluations scope rest t
  | .port _ :: rest, t => exportEvaluations scope rest t

end

/-! Tables. -/

/-- From `t` to `u`, typedefs got their types, and those constants their values that are among the
declarations. -/
structure Settling (ds : List Declaration) (t u : SymbolTable) : Prop where
  frame : SameFrame t u
  constants : ∀ id,
    (∀ name, ⟨name, .defined .const⟩ ∈ ds → t.definedAt? name.span ≠ some id) →
    (u.symbol id).constant = (t.symbol id).constant

namespace Settling

variable {ds es : List Declaration} {t u v : SymbolTable}

theorem refl (ds : List Declaration) (t : SymbolTable) : Settling ds t t :=
  ⟨SameFrame.refl t, fun _ _ => rfl⟩

theorem trans (first : Settling ds t u) (second : Settling es u v) : Settling (ds ++ es) t v := by
  refine ⟨first.frame.trans second.frame, fun id other => ?_⟩
  have before := first.constants id fun name mem => other name (List.mem_append_left _ mem)
  refine (second.constants id fun name mem => ?_).trans before
  rw [first.frame.definedAt?]
  exact other name (List.mem_append_right _ mem)

theorem mono (settling : Settling ds t u) (sub : ds ⊆ es) : Settling es t u :=
  ⟨settling.frame, fun id other => settling.constants id fun name mem => other name (sub mem)⟩

theorem aliasTo (type : TypeSpec) (t : SymbolTable) (d : Declarator) (ds : List Declaration) :
    Settling ds t (aliasTo type t d) := by
  rw [Binding.aliasTo]
  split
  · exact ⟨SameFrame.setAlias t _ _, fun id _ =>
      t.modify_aspect Symbol.constant _ id _ fun _ => rfl⟩
  · exact refl ds t

theorem settled (t : SymbolTable) (name : Ident) (slot : ConstSlot) :
    Settling [⟨name, .defined .const⟩] t (settled t name slot) := by
  refine ⟨sameFrame_settled t name slot, fun id other => ?_⟩
  have away := other name (List.mem_singleton_self _)
  rw [Binding.settled]
  split
  · next i found =>
    simp only [SymbolTable.setConstant, SymbolTable.symbol_modify]
    split
    · next here => exact absurd (here.1 ▸ found) away
    · rfl
  · rfl

end Settling

/-! The walk. -/

/-- A step reads the table alone and settles no more than the declarations, and its errors of
evaluation are those of the evaluations. -/
structure Traces {α : Type} (ds : List Declaration) (p : BindM α)
    (qs : SymbolTable → List Evaluation) : Prop where
  run : ∀ b, p.run b = (result p b.table, ⟨tableAfter p b.table, b.errors ++ reports p b.table⟩)
  errors : ∀ t, (reports p t).filter isEval = (qs t).flatMap Evaluation.errors
  settling : ∀ t, Settling ds t (tableAfter p t)
  tables : ∀ t, ∀ q ∈ qs t, Settling ds t q.table

theorem Evaluates.tableAfter_eq {α : Type} {p : BindM α} {qs : SymbolTable → List Evaluation}
    (evaluates : Evaluates p qs) (t : SymbolTable) : tableAfter p t = t := by
  rw [tableAfter, evaluates.run]

/-- A step that leaves the table as it is. -/
theorem Evaluates.traces {α : Type} {p : BindM α} {qs : SymbolTable → List Evaluation}
    (evaluates : Evaluates p qs) (ds : List Declaration) : Traces ds p qs := by
  constructor
  case run =>
    intro b
    rw [evaluates.tableAfter_eq]
    exact evaluates.run b
  case errors => exact evaluates.errors
  case settling =>
    intro t
    rw [evaluates.tableAfter_eq]
    exact .refl ds t
  case tables =>
    intro t q mem
    rw [evaluates.tables t q mem]
    exact .refl ds t

namespace Traces

variable {α β : Type} {p : BindM α} {k : α → BindM β} {ds es : List Declaration}
  {qs rs : SymbolTable → List Evaluation}

theorem frame (traces : Traces ds p qs) (b : Binding) : SameFrame b.table (p.run b).2.table := by
  rw [traces.run]
  exact (traces.settling b.table).frame

theorem mono (traces : Traces ds p qs) (sub : ds ⊆ es) : Traces es p qs :=
  ⟨traces.run, traces.errors, fun t => (traces.settling t).mono sub,
    fun t q mem => (traces.tables t q mem).mono sub⟩

theorem of_eq (traces : Traces ds p qs) (eq : ∀ t, rs t = qs t) : Traces ds p rs :=
  ⟨traces.run, fun t => by rw [eq, traces.errors], traces.settling,
    fun t => by rw [eq]; exact traces.tables t⟩

/-- A step whose outcome is known for each table. -/
theorem outcome {r : SymbolTable → α} {u : SymbolTable → SymbolTable}
    {f : SymbolTable → List BindingError}
    (run : ∀ b, p.run b = (r b.table, ⟨u b.table, b.errors ++ f b.table⟩))
    (errors : ∀ t, (f t).filter isEval = (qs t).flatMap Evaluation.errors)
    (settling : ∀ t, Settling ds t (u t)) (tables : ∀ t, ∀ q ∈ qs t, Settling ds t q.table) :
    Traces ds p qs := by
  have silent (t : SymbolTable) : p.run ⟨t, []⟩ = (r t, ⟨u t, f t⟩) := run ⟨t, []⟩
  constructor
  case run =>
    intro b
    rw [result, tableAfter, reports, silent, run]
  case errors =>
    intro t
    rw [reports, silent]
    exact errors t
  case settling =>
    intro t
    rw [tableAfter, silent]
    exact settling t
  case tables => exact tables

theorem bind {rs : α → SymbolTable → List Evaluation} (first : Traces ds p qs)
    (second : ∀ a, Traces es (k a) (rs a)) :
    Traces (ds ++ es) (p >>= k) fun t => qs t ++ rs (result p t) (tableAfter p t) := by
  apply outcome
    (r := fun t => result (k (result p t)) (tableAfter p t))
    (u := fun t => tableAfter (k (result p t)) (tableAfter p t))
    (f := fun t => reports p t ++ reports (k (result p t)) (tableAfter p t))
  case run =>
    intro b
    rw [run_bind (first.run b), (second _).run, List.append_assoc]
  case errors =>
    intro t
    rw [List.filter_append, List.flatMap_append, first.errors, (second _).errors]
  case settling =>
    intro t
    exact (first.settling t).trans ((second _).settling _)
  case tables =>
    intro t q mem
    rcases List.mem_append.mp mem with mem | mem
    · exact (first.tables t q mem).mono (List.subset_append_left _ _)
    · exact (first.settling t).trans ((second _).tables _ q mem)

/-- What comes last leaves the table and evaluates nothing. -/
theorem last (first : Traces ds p qs) (second : ∀ a, Evaluates (k a) fun _ => []) :
    Traces ds (p >>= k) qs := by
  have traces := first.bind fun a => (second a).traces []
  rw [List.append_nil] at traces
  exact traces.of_eq fun t => (List.append_nil (qs t)).symm

/-- What comes first leaves the table. -/
theorem after {rs : α → SymbolTable → List Evaluation} (first : Evaluates p qs)
    (second : ∀ a, Traces ds (k a) (rs a)) :
    Traces ds (p >>= k) fun t => qs t ++ rs (result p t) t := by
  refine ((first.traces []).bind second).of_eq fun t => ?_
  rw [first.tableAfter_eq]

/-- What was looked up first. -/
theorem looked {f : SymbolTable → α} {rs : α → SymbolTable → List Evaluation}
    (second : ∀ a, Traces ds (k a) (rs a)) :
    Traces ds (table? f >>= k) fun t => rs (f t) t :=
  after (Evaluates.look f) second

/-- A change of the table alone. -/
theorem changeTable {f : SymbolTable → SymbolTable} (settling : ∀ t, Settling ds t (f t)) :
    Traces ds (modify fun b : Binding => { b with table := f b.table }) fun _ => [] := by
  have run (b : Binding) : (modify fun b => { b with table := f b.table } : BindM Unit).run b =
      ((), ⟨f b.table, b.errors ++ []⟩) := by
    rw [List.append_nil]
    rfl
  exact outcome (r := fun _ => ()) (f := fun _ => []) run (fun _ => rfl) settling fun _ =>
    List.forall_mem_nil _

end Traces

section

variable (scope : SymbolId)

theorem traces_typedefDeclarator (type : TypeSpec) (d : Declarator) (ds : List Declaration) :
    Traces ds (typedefDeclarator scope type d) (sizeEvaluations · scope d.dims) :=
  (Traces.after (evaluates_declarator scope d) fun d => (Traces.changeTable fun t =>
    Settling.aliasTo type t d ds).last fun _ => .pure _).of_eq fun _ => (List.append_nil _).symm

theorem traces_declarators (type : TypeSpec) (xs : List Declarator) (ds : List Declaration) :
    Traces ds (xs.mapM (typedefDeclarator scope type)) (declaratorEvaluations scope type xs) := by
  induction xs with
  | nil => exact (Evaluates.pure []).traces ds
  | cons x xs ih =>
    rw [List.mapM_cons]
    exact ((traces_typedefDeclarator scope type x ds).bind fun _ => ih.last fun _ =>
      .pure _).mono (List.append_subset.mpr ⟨List.Subset.refl ds, List.Subset.refl ds⟩)

theorem traces_typedef (d : Typedef) (ds : List Declaration) :
    Traces ds (typedef scope d) fun t => typeEvaluations t scope d.type ++
      declaratorEvaluations scope (result (typeSpec scope d.type) t) d.declarators t :=
  Traces.after (evaluates_typeSpec scope d.type) fun type =>
    (traces_declarators scope type d.declarators ds).last fun _ => .pure _

theorem traces_settleConst (type : TypeSpec) (name : Ident) (value : ConstExpr) :
    Traces [⟨name, .defined .const⟩] (settleConst scope type name value)
      (constEvaluations scope type value) := by
  apply Traces.outcome
    (r := fun t => (constOutcome scope type name t value).1.1)
    (u := fun t => settled t name (constOutcome scope type name t value).1.2)
    (f := fun t => (constOutcome scope type name t value).2)
  case run =>
    intro b
    exact run_settleConst scope type name value b
  case errors =>
    intro t
    rw [constOutcome, constEvaluations]
    cases t.constType? type with
    | none => rfl
    | some constType =>
      have errors := filter_exprOutcome scope constType t value
      rw [Option.toList_some, List.map_singleton, List.flatMap_singleton, Evaluation.errors]
      rw [exprOutcome] at errors ⊢
      dsimp only
      cases evaluated : evaluate t scope constType value with
      | ok constant => rfl
      | error error =>
        rw [evaluated] at errors
        exact errors
  case settling =>
    intro t
    exact Settling.settled t name _
  case tables =>
    intro t q mem
    obtain ⟨constType, _, rfl⟩ := List.mem_map.mp mem
    exact .refl _ t

theorem traces_constDecl (d : ConstDecl) :
    Traces [⟨d.name, .defined .const⟩] (constDecl scope d) fun t =>
      typeEvaluations t scope d.type ++
        constEvaluations scope (result (typeSpec scope d.type) t) d.value t := by
  obtain ⟨type, name, value⟩ := d
  rw [constDecl_eq_settleConst]
  exact Traces.after (evaluates_typeSpec scope type) fun type =>
    (traces_settleConst scope type name value).last fun _ => .pure _

theorem evaluates_stateMember (m : StateMember) :
    Evaluates (stateMember scope m) (memberEvaluations · scope [m.member]) := by
  refine (evaluates_members scope [m.member]).last fun ms => ?_
  cases ms with
  | nil => exact .pure _
  | cons member rest => exact .pure _

theorem traces_body (name : Ident) {body : List (Export Definition)} {ds : List Declaration}
    (inner : ∀ id, Traces ds (exports id body) (exportEvaluations id body))
    (close : List (Export Definition) → DefinitionKind Definition) :
    Traces ds (do
      let id ← scopeOf name scope
      return close (← exports id body))
      fun t => exportEvaluations ((t.definedAt? name.span).getD scope) body t :=
  Traces.looked (f := fun t => (t.definedAt? name.span).getD scope) fun id =>
    (inner id).last fun _ => .pure _

end

mutual

theorem traces_definition (scope : SymbolId) : (d : Definition) →
    Traces d.declarations (definition scope d) (definitionEvaluations scope d)
  | ⟨as, kind, _⟩ => by
    rw [Definition.declarations, definition]
    exact (Traces.after (evaluates_annotations scope as) fun _ =>
      (traces_definitionKind scope kind).last fun _ => .pure _).of_eq fun _ => by
        rw [definitionEvaluations]

theorem traces_definitionKind (scope : SymbolId) : (kind : DefinitionKind Definition) →
    Traces (kindDeclarations kind) (definitionKind scope kind) (kindEvaluations scope kind)
  | .module ⟨name, ds⟩ => by
    rw [kindDeclarations, definitionKind]
    have inner (id : Option SymbolId) : Traces (allDeclarations ds)
        (match id with
        | some id => do return DefinitionKind.module ⟨name, ← definitions id ds⟩
        | none => return DefinitionKind.module ⟨name, ds⟩)
        (fun t => match id with
        | some id => allEvaluations id ds t
        | none => []) := by
      cases id with
      | none => exact (Evaluates.pure _).traces _
      | some id => exact (traces_definitions id ds).last fun _ => .pure _
    exact ((Traces.looked inner).of_eq fun t => by rw [kindEvaluations]).mono
      (List.subset_cons_self _ _)
  | .struct s => by
    rw [definitionKind]
    exact (((evaluates_structType scope s).last fun _ => .pure _).traces _).of_eq fun _ => by
      rw [kindEvaluations]
  | .union u => by
    rw [definitionKind]
    exact (((evaluates_unionType scope u).last fun _ => .pure _).traces _).of_eq fun _ => by
      rw [kindEvaluations]
  | .enum e => by
    rw [definitionKind]
    exact (((evaluates_enumType scope e).last fun _ => .pure _).traces _).of_eq fun _ => by
      rw [kindEvaluations, typeEvaluations]
  | .bitset s => by
    rw [definitionKind]
    exact (((evaluates_bitsetType scope s).last fun _ => .pure _).traces _).of_eq fun _ => by
      rw [kindEvaluations, typeEvaluations]
  | .bitmask s => by
    rw [definitionKind]
    exact (((evaluates_bitmaskType scope s).last fun _ => .pure _).traces _).of_eq fun _ => by
      rw [kindEvaluations, typeEvaluations]
  | .typedef d => by
    rw [definitionKind]
    exact ((traces_typedef scope d _).last fun _ => .pure _).of_eq fun _ => by rw [kindEvaluations]
  | .const d => by
    rw [kindDeclarations, definitionKind]
    exact ((traces_constDecl scope d).last fun _ => .pure _).of_eq fun _ => by rw [kindEvaluations]
  | .exception d => by
    rw [definitionKind]
    exact ((Evaluates.inScope scope d.name fun id => (evaluates_members id d.members).last fun _ =>
      .pure _).traces _).of_eq fun _ => by rw [kindEvaluations]
  | .interface ⟨name, _, _, body⟩ => by
    rw [kindDeclarations, definitionKind]
    exact ((traces_body scope name (traces_exports · body) _).of_eq fun _ => by
      rw [kindEvaluations]).mono (List.subset_cons_self _ _)
  | .value ⟨name, _, _, _, _, body⟩ => by
    rw [kindDeclarations, definitionKind]
    exact ((traces_body scope name (traces_exports · body) _).of_eq fun _ => by
      rw [kindEvaluations]).mono (List.subset_cons_self _ _)
  | .event ⟨name, _, _, _, _, body⟩ => by
    rw [kindDeclarations, definitionKind]
    exact ((traces_body scope name (traces_exports · body) _).of_eq fun _ => by
      rw [kindEvaluations]).mono (List.subset_cons_self _ _)
  | .valueBox d => by
    rw [definitionKind]
    exact (((evaluates_typeSpec scope d.type).last fun _ => .pure _).traces _).of_eq fun _ => by
      rw [kindEvaluations]
  | .component ⟨name, _, _, body⟩ => by
    rw [kindDeclarations, definitionKind]
    exact ((traces_body scope name (traces_exports · body) _).of_eq fun _ => by
      rw [kindEvaluations]).mono (List.subset_cons_self _ _)
  | .home ⟨name, _, _, _, _, body⟩ => by
    rw [kindDeclarations, definitionKind]
    exact ((traces_body scope name (traces_exports · body) _).of_eq fun _ => by
      rw [kindEvaluations]).mono (List.subset_cons_self _ _)
  | .native _ => by
    rw [definitionKind]
    exact ((Evaluates.pure _).traces _).of_eq fun _ => by rw [kindEvaluations]
  | .forward _ => by
    rw [definitionKind]
    exact ((Evaluates.pure _).traces _).of_eq fun _ => by rw [kindEvaluations]
  | .typeId _ => by
    rw [definitionKind]
    exact ((Evaluates.pure _).traces _).of_eq fun _ => by rw [kindEvaluations]
  | .typePrefix _ => by
    rw [definitionKind]
    exact ((Evaluates.pure _).traces _).of_eq fun _ => by rw [kindEvaluations]
  | .annotationDecl _ => by
    rw [definitionKind]
    exact ((Evaluates.pure _).traces _).of_eq fun _ => by rw [kindEvaluations]

theorem traces_definitions (scope : SymbolId) : (ds : List Definition) →
    Traces (allDeclarations ds) (definitions scope ds) (allEvaluations scope ds)
  | [] => by
    rw [definitions]
    exact ((Evaluates.pure _).traces _).of_eq fun _ => by rw [allEvaluations]
  | d :: ds => by
    rw [allDeclarations, definitions]
    exact ((traces_definition scope d).bind fun _ => (traces_definitions scope ds).last fun _ =>
      .pure _).of_eq fun _ => by rw [allEvaluations]

theorem traces_exports (scope : SymbolId) : (es : List (Export Definition)) →
    Traces (exportDeclarations es) (exports scope es) (exportEvaluations scope es)
  | [] => by
    rw [exports]
    exact ((Evaluates.pure _).traces _).of_eq fun _ => by rw [exportEvaluations]
  | .definition d :: rest => by
    rw [exportDeclarations, exports]
    exact ((traces_definition scope d).bind fun _ => (traces_exports scope rest).last fun _ =>
      .pure _).of_eq fun _ => by rw [exportEvaluations]
  | .stateMember m :: rest => by
    rw [exportDeclarations, exports]
    exact ((Traces.after (evaluates_stateMember scope m) fun _ =>
      (traces_exports scope rest).last fun _ => .pure _).of_eq fun _ => by
        rw [exportEvaluations]).mono (List.subset_append_right _ _)
  | .attribute _ :: rest => by
    rw [exportDeclarations, exports]
    exact ((traces_exports scope rest).last fun _ => .pure _).of_eq fun _ => by
      rw [exportEvaluations]
  | .operation _ :: rest => by
    rw [exportDeclarations, exports]
    exact ((traces_exports scope rest).last fun _ => .pure _).of_eq fun _ => by
      rw [exportEvaluations]
  | .initializer _ :: rest => by
    rw [exportDeclarations, exports]
    exact ((traces_exports scope rest).last fun _ => .pure _).of_eq fun _ => by
      rw [exportEvaluations]
  | .port _ :: rest => by
    rw [exportDeclarations, exports]
    exact ((traces_exports scope rest).last fun _ => .pure _).of_eq fun _ => by
      rw [exportEvaluations]

end

/-- The types of typedefs are no matter of frames, nor of constants. -/
theorem settling_allAliases (t : SymbolTable) (scope : SymbolId) (ds : List Definition) :
    Settling [] t (allAliases scope ds t) := by
  have same := SameFrame.refl t
  rw [allAliases_eq t scope ds t same]
  exact ⟨sameFrame_enterAliases same _, fun id _ => constant_enterAliases same _ id⟩

end Idl.Binding

namespace Idl

/-- Binding settles the constants and typedefs of the unit, and nothing else of the table. -/
theorem settling_bindUnit (s : Specification) (t : SymbolTable) :
    Binding.Settling s.declarations t (bindUnit s t).table :=
  (Binding.settling_allAliases t SymbolTable.rootId s.definitions).trans
    ((Binding.traces_definitions SymbolTable.rootId s.definitions).settling _)

end Idl
