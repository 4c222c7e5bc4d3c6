import Idl.Proofs.Scope.Steps

/-!
A walk over a tree makes one step for each declaration of the tree, so the finished table knows
every declaration of the unit. Main statement: `entered_buildScopes`.
-/

set_option autoImplicit false

namespace Idl

namespace Apart

theorem of_append {ds es : List Declaration} (apart : Apart (ds ++ es)) : Apart ds := by
  rw [Apart, List.map_append] at apart
  exact (List.nodup_append.mp apart).1

/-- A declaration begins where none before it does. -/
theorem notMem {ds es : List Declaration} {d : Declaration} (apart : Apart (ds ++ d :: es)) :
    d.name.span.offset ∉ ds.map (·.name.span.offset) := by
  intro mem
  rw [Apart, List.map_append] at apart
  exact (List.nodup_append.mp apart).2.2 _ mem _ (by simp) rfl

theorem shift {ds es : List Declaration} {d : Declaration} (apart : Apart (ds ++ d :: es)) :
    Apart (ds ++ [d] ++ es) := by
  rwa [← List.append_cons]

theorem assoc {ds es fs : List Declaration} (apart : Apart (ds ++ (es ++ fs))) :
    Apart (ds ++ es ++ fs) := by
  rwa [List.append_assoc]

end Apart

namespace ScopeBuilder

variable {b : ScopeBuilder} {ds : List Declaration}

/-- The names that one owner lists, each entered by a step of its own. -/
theorem entered_listed {α : Type} (name : α → Ident)
    (enter : ScopeBuilder → α × Nat → ScopeBuilder) {owner : Ident} {kind : SymbolKind}
    {id : SymbolId}
    (step : ∀ b x, Defines b.table owner kind id →
      ∃ i, Step b.table (enter b x).table ⟨name x.1, .listed owner⟩ i)
    (xs : List α) (start : Nat) (b : ScopeBuilder) (ds : List Declaration)
    (before : Entered b.table ds) (defines : Defines b.table owner kind id)
    (declared : ⟨owner, .defined kind⟩ ∈ ds)
    (apart : Apart (ds ++ xs.map fun x => ⟨name x, .listed owner⟩)) :
    Entered ((xs.zipIdx start).foldl enter b).table
      (ds ++ xs.map fun x => ⟨name x, .listed owner⟩) := by
  induction xs generalizing start b ds with
  | nil => simpa using before
  | cons x xs ih =>
    obtain ⟨i, step⟩ := step b (x, start) defines
    have away : owner.span.offset ≠ (name x).span.offset :=
      fun same => apart.notMem (same ▸ List.mem_map_of_mem (f := (·.name.span.offset)) declared)
    have next := ih (start + 1) (enter b (x, start)) _ (step.entered before apart.notMem)
      (step.keeps_defines defines away) (List.mem_append_left _ declared) apart.shift
    simpa using next

theorem entered_declare (scope : SymbolId) (name : Ident) (kind : SymbolKind)
    (before : Entered b.table ds) (apart : Apart (ds ++ [⟨name, .defined kind⟩])) :
    Entered (b.declare scope name kind).2.table (ds ++ [⟨name, .defined kind⟩]) :=
  (step_declare b scope name kind).entered before apart.notMem

theorem entered_enumType (scope : SymbolId) (t : EnumType) (before : Entered b.table ds)
    (apart : Apart (ds ++ listing t.name .enum t.enumerators)) :
    Entered (b.enumType scope t).table (ds ++ listing t.name .enum t.enumerators) := by
  have step := step_declare b scope t.name .enum
  have values : t.enumerators.map (fun v => (⟨v.name, .listed t.name⟩ : Declaration)) =
      (t.enumerators.map (·.name)).map fun name => ⟨name, .listed t.name⟩ := by
    rw [List.map_map]
    rfl
  rw [listing, values] at apart ⊢
  rw [List.append_cons]
  exact entered_listed (fun name => name) _
    (fun c x defines => step_enumerator c scope _ x.1 x.2 defines) _ 0 _ _
    (step.entered before apart.notMem) (step.defines .enum rfl) (by simp) apart.shift

theorem entered_bitmaskType (scope : SymbolId) (t : BitmaskType) (before : Entered b.table ds)
    (apart : Apart (ds ++ listing t.name .bitmask t.values)) :
    Entered (b.bitmaskType scope t).table (ds ++ listing t.name .bitmask t.values) := by
  have step := step_declare b scope t.name .bitmask
  rw [listing] at apart ⊢
  rw [List.append_cons]
  exact entered_listed (·.name) _
    (fun c x defines => ⟨_, step_declare_listed c _ _
      (.bitValue (b.declare scope t.name .bitmask).1 x.2) rfl defines.place defines.used⟩)
    t.values 0 _ _ (step.entered before apart.notMem) (step.defines .bitmask rfl) (by simp)
    apart.shift

mutual

theorem entered_typeSpec (scope : SymbolId) : (τ : TypeSpec) → (b : ScopeBuilder) →
    (ds : List Declaration) → Entered b.table ds → Apart (ds ++ τ.declarations) →
    Entered (typeSpec scope τ b).table (ds ++ τ.declarations)
  | .struct ⟨name, _, fields, _⟩, b, ds, before, apart => by
    rw [typeSpec, TypeSpec.declarations] at *
    rw [List.append_cons]
    exact entered_members _ fields _ _
      ((step_complete b scope name .struct).entered before apart.notMem) apart.shift
  | .union ⟨name, ⟨_, type, _⟩, cases, _⟩, b, ds, before, apart => by
    rw [typeSpec, TypeSpec.declarations] at *
    have step := step_complete b scope name .union
    have inner := entered_typeSpec (b.complete scope name .union).1 type _ _
      (step.entered before apart.notMem) apart.shift.assoc.of_append
    rw [List.append_cons, ← List.append_assoc]
    exact entered_unionCases _ cases _ _ inner apart.shift.assoc
  | .enum t, _, _, before, apart => by
    rw [typeSpec, TypeSpec.declarations] at *
    exact entered_enumType scope t before apart
  | .bitset t, _, _, before, apart => by
    rw [typeSpec, TypeSpec.declarations] at *
    exact entered_declare scope t.name .bitset before apart
  | .bitmask t, _, _, before, apart => by
    rw [typeSpec, TypeSpec.declarations] at *
    exact entered_bitmaskType scope t before apart
  | .sequence element _, b, ds, before, apart => by
    rw [typeSpec, TypeSpec.declarations] at *
    exact entered_typeSpec scope element b ds before apart
  | .set element _, b, ds, before, apart => by
    rw [typeSpec, TypeSpec.declarations] at *
    exact entered_typeSpec scope element b ds before apart
  | .map key value _, b, ds, before, apart => by
    rw [typeSpec, TypeSpec.declarations] at *
    have inner := entered_typeSpec scope key b ds before apart.assoc.of_append
    rw [← List.append_assoc]
    exact entered_typeSpec scope value _ _ inner apart.assoc
  | .primitive _, _, _, before, _ => by simpa [typeSpec, TypeSpec.declarations] using before
  | .named _, _, _, before, _ => by simpa [typeSpec, TypeSpec.declarations] using before
  | .string _, _, _, before, _ => by simpa [typeSpec, TypeSpec.declarations] using before
  | .wstring _, _, _, before, _ => by simpa [typeSpec, TypeSpec.declarations] using before
  | .fixed _, _, _, before, _ => by simpa [typeSpec, TypeSpec.declarations] using before

theorem entered_members (scope : SymbolId) : (ms : List (Member TypeSpec)) → (b : ScopeBuilder) →
    (ds : List Declaration) → Entered b.table ds → Apart (ds ++ memberDeclarations ms) →
    Entered (members scope ms b).table (ds ++ memberDeclarations ms)
  | [], _, _, before, _ => by simpa [members, memberDeclarations] using before
  | ⟨_, type, _, _⟩ :: rest, b, ds, before, apart => by
    rw [members, memberDeclarations] at *
    have inner := entered_typeSpec scope type b ds before apart.assoc.of_append
    rw [← List.append_assoc]
    exact entered_members scope rest _ _ inner apart.assoc

theorem entered_unionCases (scope : SymbolId) : (cs : List (UnionCase TypeSpec)) →
    (b : ScopeBuilder) → (ds : List Declaration) → Entered b.table ds →
    Apart (ds ++ caseDeclarations cs) →
    Entered (unionCases scope cs b).table (ds ++ caseDeclarations cs)
  | [], _, _, before, _ => by simpa [unionCases, caseDeclarations] using before
  | ⟨_, _, type, _, _⟩ :: rest, b, ds, before, apart => by
    rw [unionCases, caseDeclarations] at *
    have inner := entered_typeSpec scope type b ds before apart.assoc.of_append
    rw [← List.append_assoc]
    exact entered_unionCases scope rest _ _ inner apart.assoc

end

theorem entered_declarators (scope : SymbolId) (names : List Declarator) (b : ScopeBuilder)
    (ds : List Declaration) (before : Entered b.table ds)
    (apart : Apart (ds ++ names.map fun d => ⟨d.name, .defined .typedef⟩)) :
    Entered (names.foldl (fun b d => (b.declare scope d.name .typedef).2) b).table
      (ds ++ names.map fun d => ⟨d.name, .defined .typedef⟩) := by
  induction names generalizing b ds with
  | nil => simpa using before
  | cons d names ih =>
    have step := step_declare b scope d.name .typedef
    have next := ih (b.declare scope d.name .typedef).2 _ (step.entered before apart.notMem)
      apart.shift
    simpa using next

theorem entered_typedef (scope : SymbolId) (d : Typedef) (before : Entered b.table ds)
    (apart : Apart (ds ++ d.declarations)) :
    Entered (typedef scope d b).table (ds ++ d.declarations) := by
  rw [Typedef.declarations] at *
  have inner := entered_typeSpec scope d.type b ds before apart.assoc.of_append
  rw [← List.append_assoc]
  exact entered_declarators scope d.declarators _ _ inner apart.assoc

theorem entered_const (scope : SymbolId) (name : Ident) (before : Entered b.table ds)
    (apart : Apart (ds ++ [⟨name, .defined .const⟩])) :
    Entered ((b.declare scope name .const).2.table.setConstant (b.declare scope name .const).1
      .pending) (ds ++ [⟨name, .defined .const⟩]) := by
  have step := step_declare b scope name .const
  exact (step.setConstant _ .pending (by simp)).entered before
    apart.notMem

mutual

theorem entered_definition (scope : SymbolId) : (d : Definition) → (b : ScopeBuilder) →
    (ds : List Declaration) → Entered b.table ds → Apart (ds ++ d.declarations) →
    Entered (definition scope d b).table (ds ++ d.declarations)
  | ⟨_, kind, _⟩, b, ds, before, apart => by
    rw [definition, Definition.declarations] at *
    exact entered_definitionKind scope kind b ds before apart

theorem entered_definitionKind (scope : SymbolId) : (kind : DefinitionKind Definition) →
    (b : ScopeBuilder) → (ds : List Declaration) → Entered b.table ds →
    Apart (ds ++ kindDeclarations kind) →
    Entered (definitionKind scope kind b).table (ds ++ kindDeclarations kind)
  | .module ⟨name, inner⟩, b, ds, before, apart => by
    rw [definitionKind, kindDeclarations] at *
    rw [List.append_cons]
    exact entered_definitions _ inner _ _
      ((step_openModule b scope name).entered before apart.notMem) apart.shift
  | .struct t, b, ds, before, apart => by
    rw [definitionKind, kindDeclarations] at *
    exact entered_typeSpec scope (.struct t) b ds before apart
  | .union t, b, ds, before, apart => by
    rw [definitionKind, kindDeclarations] at *
    exact entered_typeSpec scope (.union t) b ds before apart
  | .enum t, _, _, before, apart => by
    rw [definitionKind, kindDeclarations] at *
    exact entered_enumType scope t before apart
  | .bitset t, _, _, before, apart => by
    rw [definitionKind, kindDeclarations] at *
    exact entered_declare scope t.name .bitset before apart
  | .bitmask t, _, _, before, apart => by
    rw [definitionKind, kindDeclarations] at *
    exact entered_bitmaskType scope t before apart
  | .typedef d, _, _, before, apart => by
    rw [definitionKind, kindDeclarations] at *
    exact entered_typedef scope d before apart
  | .const d, _, _, before, apart => by
    rw [definitionKind, kindDeclarations] at *
    exact entered_const scope d.name before apart
  | .exception d, b, ds, before, apart => by
    rw [definitionKind, kindDeclarations] at *
    rw [List.append_cons]
    exact entered_members _ d.members _ _
      ((step_declare b scope d.name .exception).entered before apart.notMem) apart.shift
  | .native name, _, _, before, apart => by
    rw [definitionKind, kindDeclarations] at *
    exact entered_declare scope name .native before apart
  | .forward d, b, ds, before, apart => by
    rw [definitionKind, kindDeclarations] at *
    obtain ⟨id, step⟩ := step_announce b scope d
    exact step.entered before apart.notMem
  | .interface ⟨name, _, _, body⟩, b, ds, before, apart => by
    rw [definitionKind, kindDeclarations] at *
    rw [List.append_cons]
    exact entered_exports _ body _ _
      ((step_complete b scope name .interface).entered before apart.notMem) apart.shift
  | .value ⟨name, _, _, _, _, body⟩, b, ds, before, apart => by
    rw [definitionKind, kindDeclarations] at *
    rw [List.append_cons]
    exact entered_exports _ body _ _
      ((step_complete b scope name .value).entered before apart.notMem) apart.shift
  | .event ⟨name, _, _, _, _, body⟩, b, ds, before, apart => by
    rw [definitionKind, kindDeclarations] at *
    rw [List.append_cons]
    exact entered_exports _ body _ _
      ((step_complete b scope name .event).entered before apart.notMem) apart.shift
  | .valueBox d, _, _, before, apart => by
    rw [definitionKind, kindDeclarations] at *
    exact entered_declare scope d.name .valueBox before apart
  | .component ⟨name, _, _, body⟩, b, ds, before, apart => by
    rw [definitionKind, kindDeclarations] at *
    rw [List.append_cons]
    exact entered_exports _ body _ _
      ((step_complete b scope name .component).entered before apart.notMem) apart.shift
  | .home ⟨name, _, _, _, _, body⟩, b, ds, before, apart => by
    rw [definitionKind, kindDeclarations] at *
    rw [List.append_cons]
    exact entered_exports _ body _ _
      ((step_declare b scope name .home).entered before apart.notMem) apart.shift
  | .annotationDecl _, _, _, before, _ => by
    simpa [definitionKind, kindDeclarations] using before
  | .typeId _, _, _, before, _ => by simpa [definitionKind, kindDeclarations] using before
  | .typePrefix _, _, _, before, _ => by simpa [definitionKind, kindDeclarations] using before

theorem entered_definitions (scope : SymbolId) : (defs : List Definition) → (b : ScopeBuilder) →
    (ds : List Declaration) → Entered b.table ds → Apart (ds ++ allDeclarations defs) →
    Entered (definitions scope defs b).table (ds ++ allDeclarations defs)
  | [], _, _, before, _ => by simpa [definitions, allDeclarations] using before
  | d :: rest, b, ds, before, apart => by
    rw [definitions, allDeclarations] at *
    have inner := entered_definition scope d b ds before apart.assoc.of_append
    rw [← List.append_assoc]
    exact entered_definitions scope rest _ _ inner apart.assoc

theorem entered_exports (scope : SymbolId) : (body : List (Export Definition)) →
    (b : ScopeBuilder) → (ds : List Declaration) → Entered b.table ds →
    Apart (ds ++ exportDeclarations body) →
    Entered (exports scope body b).table (ds ++ exportDeclarations body)
  | [], _, _, before, _ => by simpa [exports, exportDeclarations] using before
  | .definition d :: rest, b, ds, before, apart => by
    rw [exports, exportDeclarations] at *
    have inner := entered_definition scope d b ds before apart.assoc.of_append
    rw [← List.append_assoc]
    exact entered_exports scope rest _ _ inner apart.assoc
  | .stateMember m :: rest, b, ds, before, apart => by
    rw [exports, exportDeclarations] at *
    have inner := entered_typeSpec scope m.member.type b ds before apart.assoc.of_append
    rw [← List.append_assoc]
    exact entered_exports scope rest _ _ inner apart.assoc
  | .attribute _ :: rest, b, ds, before, apart => by
    rw [exports, exportDeclarations] at *
    exact entered_exports scope rest b ds before apart
  | .operation _ :: rest, b, ds, before, apart => by
    rw [exports, exportDeclarations] at *
    exact entered_exports scope rest b ds before apart
  | .initializer _ :: rest, b, ds, before, apart => by
    rw [exports, exportDeclarations] at *
    exact entered_exports scope rest b ds before apart
  | .port _ :: rest, b, ds, before, apart => by
    rw [exports, exportDeclarations] at *
    exact entered_exports scope rest b ds before apart

end

end ScopeBuilder

/-- The table of a unit knows each of its declarations. -/
theorem entered_buildScopes (s : Specification) (apart : Apart s.declarations) :
    Entered (buildScopes s).table s.declarations := by
  have entered := ScopeBuilder.entered_definitions SymbolTable.rootId s.definitions ⟨.empty, []⟩ []
    entered_empty apart
  rwa [List.nil_append] at entered

end Idl
