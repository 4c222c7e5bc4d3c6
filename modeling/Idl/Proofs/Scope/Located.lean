import Idl.Proofs.Layout.Read
import Idl.Proofs.Scope.Sited

/-!
The tree and the symbol table meet through places: where a tree declares a name, the table finds a
symbol of that name and of the kind of the construct, and its parent is the symbol that the table
finds for the scope around. Main statements: `enters_definitions` and `located_parseText`.
-/

set_option autoImplicit false

namespace Idl

/-- What a name is declared as. -/
inductive Form
  | plain (kind : SymbolKind)
  | announced (kind : ForwardKind)
  | enumerator (ordinal : Nat)
  | flag (index : Nat)

namespace Form

/-- The kind of symbol, where `owner` is the symbol around it. -/
def kind (owner : SymbolId) : Form → SymbolKind
  | plain kind => kind
  | announced kind => .ofForward kind
  | enumerator ordinal => .enumerator owner ordinal
  | flag index => .bitValue owner index

/-- The name gets a symbol of its own, as modules and forward declarations do not. -/
def isOwn : Form → Bool
  | plain kind => kind ≠ .module
  | announced _ => false
  | enumerator _ | flag _ => true

end Form

/-- A name that a tree declares, and the name of the definition around it. The global scope has
none. -/
structure Located where
  name : Ident
  around : Option Ident
  form : Form

/-! The names of a tree, with what is around them. -/

/-- An enum and its enumerators, or a bitmask and its flags. -/
def locatedListing (around : Option Ident) (owner : Ident) (kind : SymbolKind) (value : Nat → Form)
    (values : List Enumerator) : List Located :=
  ⟨owner, around, .plain kind⟩ ::
    values.zipIdx.map fun (v, index) => ⟨v.name, some owner, value index⟩

mutual

def TypeSpec.located (around : Option Ident) : TypeSpec → List Located
  | .struct ⟨name, _, fields, _⟩ =>
    ⟨name, around, .plain .struct⟩ :: locatedMembers (some name) fields
  | .union ⟨name, ⟨_, type, _⟩, cases, _⟩ =>
    ⟨name, around, .plain .union⟩ ::
      (type.located (some name) ++ locatedCases (some name) cases)
  | .enum t => locatedListing around t.name .enum .enumerator t.enumerators
  | .bitset t => [⟨t.name, around, .plain .bitset⟩]
  | .bitmask t => locatedListing around t.name .bitmask .flag t.values
  | .sequence element _ => element.located around
  | .set element _ => element.located around
  | .map key value _ => key.located around ++ value.located around
  | .primitive _ => []
  | .named _ => []
  | .string _ => []
  | .wstring _ => []
  | .fixed _ => []

def locatedMembers (around : Option Ident) : List (Member TypeSpec) → List Located
  | [] => []
  | ⟨_, type, _, _⟩ :: rest => type.located around ++ locatedMembers around rest

def locatedCases (around : Option Ident) : List (UnionCase TypeSpec) → List Located
  | [] => []
  | ⟨_, _, type, _, _⟩ :: rest => type.located around ++ locatedCases around rest

end

def Typedef.located (around : Option Ident) (d : Typedef) : List Located :=
  d.type.located around ++ d.declarators.map fun d => ⟨d.name, around, .plain .typedef⟩

mutual

def Definition.located (around : Option Ident) : Definition → List Located
  | ⟨_, kind, _⟩ => locatedKind around kind

def locatedKind (around : Option Ident) : DefinitionKind Definition → List Located
  | .module ⟨name, ds⟩ => ⟨name, around, .plain .module⟩ :: locatedAll (some name) ds
  | .struct t => (TypeSpec.struct t).located around
  | .union t => (TypeSpec.union t).located around
  | .enum t => (TypeSpec.enum t).located around
  | .bitset t => (TypeSpec.bitset t).located around
  | .bitmask t => (TypeSpec.bitmask t).located around
  | .typedef d => d.located around
  | .const d => [⟨d.name, around, .plain .const⟩]
  | .exception d => ⟨d.name, around, .plain .exception⟩ :: locatedMembers (some d.name) d.members
  | .native name => [⟨name, around, .plain .native⟩]
  | .forward d => [⟨d.name, around, .announced d.kind⟩]
  | .interface ⟨name, _, _, body⟩ =>
    ⟨name, around, .plain .interface⟩ :: locatedExports (some name) body
  | .value ⟨name, _, _, _, _, body⟩ =>
    ⟨name, around, .plain .value⟩ :: locatedExports (some name) body
  | .event ⟨name, _, _, _, _, body⟩ =>
    ⟨name, around, .plain .event⟩ :: locatedExports (some name) body
  | .valueBox d => [⟨d.name, around, .plain .valueBox⟩]
  | .component ⟨name, _, _, body⟩ =>
    ⟨name, around, .plain .component⟩ :: locatedExports (some name) body
  | .home ⟨name, _, _, _, _, body⟩ =>
    ⟨name, around, .plain .home⟩ :: locatedExports (some name) body
  | .typeId _ => []
  | .typePrefix _ => []
  | .annotationDecl _ => []

def locatedAll (around : Option Ident) : List Definition → List Located
  | [] => []
  | d :: ds => d.located around ++ locatedAll around ds

def locatedExports (around : Option Ident) : List (Export Definition) → List Located
  | [] => []
  | .definition d :: rest => d.located around ++ locatedExports around rest
  | .stateMember m :: rest => m.member.type.located around ++ locatedExports around rest
  | .attribute _ :: rest => locatedExports around rest
  | .operation _ :: rest => locatedExports around rest
  | .initializer _ :: rest => locatedExports around rest
  | .port _ :: rest => locatedExports around rest

end

/-- The names that a unit declares. -/
def Specification.located (s : Specification) : List Located := locatedAll none s.definitions

/-! What the table finds. -/

/-- The symbol of the scope that a name opens. -/
def Opens (t : SymbolTable) (scope : SymbolId) : Option Ident → Prop
  | some name => t.definedAt? name.span = some scope
  | none => scope = SymbolTable.rootId

/-- The table finds the symbol of the name, in the scope around it. -/
structure Located.Found (l : Located) (t : SymbolTable) (scope id : SymbolId) : Prop where
  around : Opens t scope l.around
  sited : Sited t l.name (l.form.kind scope) scope id
  own : l.form.isOwn = true → (t.symbol id).state = (l.name.span, false)

/-- The name is that of a forward declaration, and the scope around it holds the name for a symbol
of another kind. -/
structure Located.Refused (l : Located) (t : SymbolTable) (scope : SymbolId) : Prop where
  around : Opens t scope l.around
  announced : ∃ kind, l.form = .announced kind ∧ Refuses t scope l.name kind

/-- The operation enters the name. -/
structure Visit.Enters (t : SymbolTable) (v : Visit) (l : Located) : Prop where
  name : v.name = l.name
  kind : v.kind = l.form.kind v.home
  own : v.isOwn = l.form.isOwn
  around : Opens t v.home l.around
  refused : v.Refused t → l.Refused t v.home

namespace Visit.Enters

variable {t : SymbolTable} {scope : SymbolId} {around : Option Ident}

theorem declare (opens : Opens t scope around) (name : Ident) {kind : SymbolKind}
    (own : kind ≠ .module) : Enters t (.declare scope name kind) ⟨name, around, .plain kind⟩ :=
  ⟨rfl, rfl, (decide_eq_true own).symm, opens, False.elim⟩

theorem complete (opens : Opens t scope around) (name : Ident) (kind : ForwardKind) :
    Enters t (.complete scope name kind) ⟨name, around, .plain (.ofForward kind)⟩ :=
  ⟨rfl, rfl, by cases kind <;> rfl, opens, False.elim⟩

theorem announce (opens : Opens t scope around) (d : ForwardDecl) :
    Enters t (.announce scope d) ⟨d.name, around, .announced d.kind⟩ :=
  ⟨rfl, rfl, rfl, opens, fun refuses => ⟨opens, d.kind, rfl, refuses⟩⟩

/-- What an operation entered is found. -/
theorem found {v : Visit} {l : Located} {id : SymbolId} (enters : v.Enters t l)
    (lasts : v.Lasts t id) : l.Found t v.home id ∨ l.Refused t v.home := by
  refine lasts.sited.imp (fun sited => ?_) enters.refused
  rw [enters.name, enters.kind] at sited
  have own := lasts.own
  rw [enters.name, enters.own] at own
  exact ⟨enters.around, sited, own⟩

end Visit.Enters

namespace ScopeBuilder

variable {t : SymbolTable} {b : ScopeBuilder} {scope : SymbolId} {around : Option Ident}

/-! The walk enters the names of a tree in their scopes, as far as `t` shows what is entered. -/

/-- The operations enter the names, one by one. -/
abbrev AllEnter (t : SymbolTable) : List Visit → List Located → Prop :=
  List.Forall₂ (Visit.Enters t)

theorem enters_listed (values : List Enumerator) {visit : Enumerator × Nat → Visit}
    {place : Enumerator × Nat → Located} (each : ∀ x, (visit x).Enters t (place x)) :
    AllEnter t (values.zipIdx.map visit) (values.zipIdx.map place) := by
  rw [AllEnter, List.forall₂_map_left_iff, List.forall₂_map_right_iff, List.forall₂_same]
  exact fun x _ => each x

/-- One part of the walk after another. -/
theorem enters_append {b' : ScopeBuilder} {vs ws : List Visit} {ds : List Declaration}
    {ls ms : List Located} (tour : Tour b vs ds b') (lasting : Lasting t b (vs ++ ws))
    (first : Lasting t b vs → AllEnter t vs ls) (second : Lasting t b' ws → AllEnter t ws ms) :
    AllEnter t (vs ++ ws) (ls ++ ms) := by
  obtain ⟨front, back⟩ := lasting_append.mp lasting
  rw [tour.foldl_eq] at back
  exact List.rel_append (first front) (second back)

/-- A definition that can be announced, and what stands in it. -/
theorem enters_completed (name : Ident) (kind : ForwardKind) (opens : Opens t scope around)
    {vs : List Visit} {ls : List Located} (lasting : Lasting t b (.complete scope name kind :: vs))
    (inner : Opens t (b.complete scope name kind).1 (some name) →
      Lasting t (b.complete scope name kind).2 vs → AllEnter t vs ls) :
    AllEnter t (.complete scope name kind :: vs)
      (⟨name, around, .plain (.ofForward kind)⟩ :: ls) :=
  .cons (.complete opens name kind) (inner (lasting.1.sited_of_isOwn rfl).place lasting.2)

/-- A definition that cannot, and what stands in it. -/
theorem enters_declared (name : Ident) {kind : SymbolKind} (own : kind ≠ .module)
    (opens : Opens t scope around) {vs : List Visit} {ls : List Located}
    (lasting : Lasting t b (.declare scope name kind :: vs))
    (inner : Opens t (b.declare scope name kind).1 (some name) →
      Lasting t (b.declare scope name kind).2 vs → AllEnter t vs ls) :
    AllEnter t (.declare scope name kind :: vs) (⟨name, around, .plain kind⟩ :: ls) :=
  .cons (.declare opens name own) (inner (lasting.1.sited_of_isOwn rfl).place lasting.2)

theorem enters_enumType (e : EnumType) (opens : Opens t scope around)
    (lasting : Lasting t b (enumVisits scope e b)) :
    AllEnter t (enumVisits scope e b)
      (locatedListing around e.name .enum .enumerator e.enumerators) := by
  simp only [enumVisits, List.zipIdx_map, List.map_map] at lasting ⊢
  exact enters_declared e.name (by decide) opens lasting fun own _ =>
    enters_listed e.enumerators fun _ => ⟨rfl, rfl, rfl, own, False.elim⟩

theorem enters_bitmaskType (m : BitmaskType) (opens : Opens t scope around)
    (lasting : Lasting t b (bitmaskVisits scope m b)) :
    AllEnter t (bitmaskVisits scope m b)
      (locatedListing around m.name .bitmask .flag m.values) :=
  enters_declared m.name (by decide) opens lasting fun own _ =>
    enters_listed m.values fun _ => ⟨rfl, rfl, rfl, own, False.elim⟩

mutual

theorem enters_typeSpec (t : SymbolTable) (scope : SymbolId) (around : Option Ident) :
    (τ : TypeSpec) → (b : ScopeBuilder) → scope < b.table.size → Opens t scope around →
    Lasting t b (typeSpecVisits scope τ b) →
    AllEnter t (typeSpecVisits scope τ b) (τ.located around)
  | .struct ⟨name, _, fields, _⟩, b, _, opens, lasting => by
    rw [typeSpecVisits, TypeSpec.located] at *
    exact enters_completed name .struct opens lasting
      (enters_members t _ (some name) fields _ (lt_size_complete .struct))
  | .union ⟨name, ⟨_, type, _⟩, cases, _⟩, b, _, opens, lasting => by
    rw [typeSpecVisits, TypeSpec.located] at *
    have used : (b.complete scope name .union).1 < (b.complete scope name .union).2.table.size :=
      lt_size_complete .union
    have tour := tour_typeSpec (b.complete scope name .union).1 type _ used
    exact enters_completed name .union opens lasting fun own rest => enters_append tour rest
      (enters_typeSpec t _ (some name) type _ used own)
      (enters_unionCases t _ (some name) cases _ (tour.widens.lt_size used) own)
  | .enum e, _, _, opens, lasting => by
    rw [typeSpecVisits, TypeSpec.located] at *
    exact enters_enumType e opens lasting
  | .bitset s, _, _, opens, _ => by
    rw [typeSpecVisits, TypeSpec.located] at *
    exact .cons (.declare opens s.name (by decide)) .nil
  | .bitmask m, _, _, opens, lasting => by
    rw [typeSpecVisits, TypeSpec.located] at *
    exact enters_bitmaskType m opens lasting
  | .sequence element _, b, inside, opens, lasting => by
    rw [typeSpecVisits, TypeSpec.located] at *
    exact enters_typeSpec t scope around element b inside opens lasting
  | .set element _, b, inside, opens, lasting => by
    rw [typeSpecVisits, TypeSpec.located] at *
    exact enters_typeSpec t scope around element b inside opens lasting
  | .map key value _, b, inside, opens, lasting => by
    rw [typeSpecVisits, TypeSpec.located] at *
    have tour := tour_typeSpec scope key b inside
    exact enters_append tour lasting (enters_typeSpec t scope around key b inside opens)
      (enters_typeSpec t scope around value _ (tour.widens.lt_size inside) opens)
  | .primitive _, _, _, _, _ => by
    rw [typeSpecVisits, TypeSpec.located]
    exact .nil
  | .named _, _, _, _, _ => by
    rw [typeSpecVisits, TypeSpec.located]
    exact .nil
  | .string _, _, _, _, _ => by
    rw [typeSpecVisits, TypeSpec.located]
    exact .nil
  | .wstring _, _, _, _, _ => by
    rw [typeSpecVisits, TypeSpec.located]
    exact .nil
  | .fixed _, _, _, _, _ => by
    rw [typeSpecVisits, TypeSpec.located]
    exact .nil

theorem enters_members (t : SymbolTable) (scope : SymbolId) (around : Option Ident) :
    (ms : List (Member TypeSpec)) → (b : ScopeBuilder) → scope < b.table.size →
    Opens t scope around → Lasting t b (memberVisits scope ms b) →
    AllEnter t (memberVisits scope ms b) (locatedMembers around ms)
  | [], _, _, _, _ => by
    rw [memberVisits, locatedMembers]
    exact .nil
  | ⟨_, type, _, _⟩ :: rest, b, inside, opens, lasting => by
    rw [memberVisits, locatedMembers] at *
    have tour := tour_typeSpec scope type b inside
    exact enters_append tour lasting (enters_typeSpec t scope around type b inside opens)
      (enters_members t scope around rest _ (tour.widens.lt_size inside) opens)

theorem enters_unionCases (t : SymbolTable) (scope : SymbolId) (around : Option Ident) :
    (cs : List (UnionCase TypeSpec)) → (b : ScopeBuilder) → scope < b.table.size →
    Opens t scope around → Lasting t b (caseVisits scope cs b) →
    AllEnter t (caseVisits scope cs b) (locatedCases around cs)
  | [], _, _, _, _ => by
    rw [caseVisits, locatedCases]
    exact .nil
  | ⟨_, _, type, _, _⟩ :: rest, b, inside, opens, lasting => by
    rw [caseVisits, locatedCases] at *
    have tour := tour_typeSpec scope type b inside
    exact enters_append tour lasting (enters_typeSpec t scope around type b inside opens)
      (enters_unionCases t scope around rest _ (tour.widens.lt_size inside) opens)

end

theorem enters_typedef (d : Typedef) (inside : scope < b.table.size) (opens : Opens t scope around)
    (lasting : Lasting t b (typedefVisits scope d b)) :
    AllEnter t (typedefVisits scope d b) (d.located around) := by
  refine enters_append (tour_typeSpec scope d.type b inside) lasting
    (enters_typeSpec t scope around d.type b inside opens) fun _ => ?_
  rw [AllEnter, List.forall₂_map_left_iff, List.forall₂_map_right_iff, List.forall₂_same]
  exact fun d _ => .declare opens d.name (by decide)

mutual

theorem enters_definition (t : SymbolTable) (scope : SymbolId) (around : Option Ident) :
    (d : Definition) → (b : ScopeBuilder) → scope < b.table.size → Opens t scope around →
    Lasting t b (definitionVisits scope d b) →
    AllEnter t (definitionVisits scope d b) (d.located around)
  | ⟨_, kind, _⟩, b, inside, opens, lasting => by
    rw [definitionVisits, Definition.located] at *
    exact enters_definitionKind t scope around kind b inside opens lasting

theorem enters_definitionKind (t : SymbolTable) (scope : SymbolId) (around : Option Ident) :
    (kind : DefinitionKind Definition) → (b : ScopeBuilder) → scope < b.table.size →
    Opens t scope around → Lasting t b (kindVisits scope kind b) →
    AllEnter t (kindVisits scope kind b) (locatedKind around kind)
  | .module ⟨name, ds⟩, _, _, opens, lasting => by
    rw [kindVisits, locatedKind] at *
    obtain ⟨head, rest⟩ := lasting
    have sited := head.sited.resolve_right not_false
    exact .cons ⟨rfl, rfl, rfl, opens, False.elim⟩
      (enters_definitions t _ (some name) ds _ lt_size_openModule sited.place rest)
  | .struct s, b, inside, opens, lasting => by
    rw [kindVisits, locatedKind] at *
    exact enters_typeSpec t scope around (.struct s) b inside opens lasting
  | .union u, b, inside, opens, lasting => by
    rw [kindVisits, locatedKind] at *
    exact enters_typeSpec t scope around (.union u) b inside opens lasting
  | .enum e, _, _, opens, lasting => by
    rw [kindVisits, locatedKind, TypeSpec.located] at *
    exact enters_enumType e opens lasting
  | .bitset s, _, _, opens, _ => by
    rw [kindVisits, locatedKind, TypeSpec.located] at *
    exact .cons (.declare opens s.name (by decide)) .nil
  | .bitmask m, _, _, opens, lasting => by
    rw [kindVisits, locatedKind, TypeSpec.located] at *
    exact enters_bitmaskType m opens lasting
  | .typedef d, _, inside, opens, lasting => by
    rw [kindVisits, locatedKind] at *
    exact enters_typedef d inside opens lasting
  | .const d, _, _, opens, _ => by
    rw [kindVisits, locatedKind] at *
    exact .cons ⟨rfl, rfl, rfl, opens, False.elim⟩ .nil
  | .exception d, _, _, opens, lasting => by
    rw [kindVisits, locatedKind] at *
    exact enters_declared d.name (by decide) opens lasting
      (enters_members t _ (some d.name) d.members _ (lt_size_declare .exception))
  | .native name, _, _, opens, _ => by
    rw [kindVisits, locatedKind] at *
    exact .cons (.declare opens name (by decide)) .nil
  | .forward d, _, _, opens, _ => by
    rw [kindVisits, locatedKind] at *
    exact .cons (.announce opens d) .nil
  | .interface ⟨name, _, _, body⟩, _, _, opens, lasting => by
    rw [kindVisits, locatedKind] at *
    exact enters_completed name .interface opens lasting
      (enters_exports t _ (some name) body _ (lt_size_complete .interface))
  | .value ⟨name, _, _, _, _, body⟩, _, _, opens, lasting => by
    rw [kindVisits, locatedKind] at *
    exact enters_completed name .value opens lasting
      (enters_exports t _ (some name) body _ (lt_size_complete .value))
  | .event ⟨name, _, _, _, _, body⟩, _, _, opens, lasting => by
    rw [kindVisits, locatedKind] at *
    exact enters_completed name .event opens lasting
      (enters_exports t _ (some name) body _ (lt_size_complete .event))
  | .valueBox d, _, _, opens, _ => by
    rw [kindVisits, locatedKind] at *
    exact .cons (.declare opens d.name (by decide)) .nil
  | .component ⟨name, _, _, body⟩, _, _, opens, lasting => by
    rw [kindVisits, locatedKind] at *
    exact enters_completed name .component opens lasting
      (enters_exports t _ (some name) body _ (lt_size_complete .component))
  | .home ⟨name, _, _, _, _, body⟩, _, _, opens, lasting => by
    rw [kindVisits, locatedKind] at *
    exact enters_declared name (by decide) opens lasting
      (enters_exports t _ (some name) body _ (lt_size_declare .home))
  | .annotationDecl _, _, _, _, _ => by
    rw [kindVisits, locatedKind]
    exact .nil
  | .typeId _, _, _, _, _ => by
    rw [kindVisits, locatedKind]
    exact .nil
  | .typePrefix _, _, _, _, _ => by
    rw [kindVisits, locatedKind]
    exact .nil

theorem enters_definitions (t : SymbolTable) (scope : SymbolId) (around : Option Ident) :
    (ds : List Definition) → (b : ScopeBuilder) → scope < b.table.size → Opens t scope around →
    Lasting t b (allVisits scope ds b) → AllEnter t (allVisits scope ds b) (locatedAll around ds)
  | [], _, _, _, _ => by
    rw [allVisits, locatedAll]
    exact .nil
  | d :: rest, b, inside, opens, lasting => by
    rw [allVisits, locatedAll] at *
    have tour := tour_definition scope d b inside
    exact enters_append tour lasting (enters_definition t scope around d b inside opens)
      (enters_definitions t scope around rest _ (tour.widens.lt_size inside) opens)

theorem enters_exports (t : SymbolTable) (scope : SymbolId) (around : Option Ident) :
    (body : List (Export Definition)) → (b : ScopeBuilder) → scope < b.table.size →
    Opens t scope around → Lasting t b (exportVisits scope body b) →
    AllEnter t (exportVisits scope body b) (locatedExports around body)
  | [], _, _, _, _ => by
    rw [exportVisits, locatedExports]
    exact .nil
  | .definition d :: rest, b, inside, opens, lasting => by
    rw [exportVisits, locatedExports] at *
    have tour := tour_definition scope d b inside
    exact enters_append tour lasting (enters_definition t scope around d b inside opens)
      (enters_exports t scope around rest _ (tour.widens.lt_size inside) opens)
  | .stateMember m :: rest, b, inside, opens, lasting => by
    rw [exportVisits, locatedExports] at *
    have tour := tour_typeSpec scope m.member.type b inside
    exact enters_append tour lasting
      (enters_typeSpec t scope around m.member.type b inside opens)
      (enters_exports t scope around rest _ (tour.widens.lt_size inside) opens)
  | .attribute _ :: rest, b, inside, opens, lasting => by
    rw [exportVisits, locatedExports] at *
    exact enters_exports t scope around rest b inside opens lasting
  | .operation _ :: rest, b, inside, opens, lasting => by
    rw [exportVisits, locatedExports] at *
    exact enters_exports t scope around rest b inside opens lasting
  | .initializer _ :: rest, b, inside, opens, lasting => by
    rw [exportVisits, locatedExports] at *
    exact enters_exports t scope around rest b inside opens lasting
  | .port _ :: rest, b, inside, opens, lasting => by
    rw [exportVisits, locatedExports] at *
    exact enters_exports t scope around rest b inside opens lasting

end

end ScopeBuilder

/-- The operations of a unit enter its names, as far as `t` shows what they enter. -/
theorem enters_visits {s : Specification} {t : SymbolTable}
    (lasting : Lasting t ⟨.empty, []⟩ s.visits) :
    List.Forall₂ (Visit.Enters t) s.visits s.located :=
  ScopeBuilder.enters_definitions t SymbolTable.rootId none s.definitions _ Nat.one_pos rfl lasting

theorem Opens.congr {t u : SymbolTable} {scope : SymbolId} {around : Option Ident}
    (same : SameFrame t u) (opens : Opens t scope around) : Opens u scope around := by
  cases around with
  | none => exact opens
  | some name => exact (same.definedAt? name.span).trans opens

namespace Located

variable {l : Located} {t u : SymbolTable}

/-- The table finds the symbol of the name, or refused to make one for a forward declaration. -/
def Shown (l : Located) (t : SymbolTable) : Prop :=
  ∃ scope, (∃ id, l.Found t scope id) ∨ l.Refused t scope

theorem Shown.found_of_isOwn (shown : l.Shown t) (own : l.form.isOwn = true) :
    ∃ scope id, l.Found t scope id := by
  obtain ⟨scope, found | refused⟩ := shown
  · exact ⟨scope, found⟩
  · obtain ⟨kind, announced, -⟩ := refused.announced
    rw [announced] at own
    cases own

/-- Binding leaves it alone. -/
theorem Shown.congr (same : SameFrame t u) (shown : l.Shown t) : l.Shown u := by
  obtain ⟨scope, ⟨id, found⟩ | refused⟩ := shown
  · refine ⟨scope, .inl ⟨id, found.around.congr same, ?_, fun own => ?_⟩⟩
    · exact ⟨(same.definedAt? _).trans found.sited.place, same.size.symm ▸ found.sited.used,
        (same.aspect Symbol.place (fun _ => rfl) id).trans found.sited.stands⟩
    · exact (same.aspect Symbol.state (fun _ => rfl) id).trans (found.own own)
  · obtain ⟨kind, announced, other, known, unlike⟩ := refused.announced
    refine ⟨scope, .inr ⟨refused.around.congr same, kind, announced, other, ?_, ?_⟩⟩
    · exact (same.member? _ _).trans known
    · exact same.kind other ▸ unlike

end Located

theorem names_of_enters {t : SymbolTable} {vs : List Visit} {ls : List Located}
    (enters : List.Forall₂ (Visit.Enters t) vs ls) : vs.map Visit.name = ls.map (·.name) := by
  induction enters with
  | nil => rfl
  | cons head _ ih => rw [List.map_cons, List.map_cons, head.name, ih]

/-- A name that is entered is shown. -/
theorem shown_of_lasting {t : SymbolTable} {b : ScopeBuilder} {vs : List Visit} {ls : List Located}
    (enters : List.Forall₂ (Visit.Enters t) vs ls) (lasting : Lasting t b vs) :
    ∀ l ∈ ls, l.Shown t := by
  induction enters generalizing b with
  | nil => exact List.forall_mem_nil _
  | cons head _ ih =>
    obtain ⟨lasts, rest⟩ := lasting
    exact List.forall_mem_cons.mpr
      ⟨⟨_, (head.found lasts).imp_left fun found => ⟨_, found⟩⟩, ih rest⟩

/-- The names that the builder enters for a text stand apart, and the table shows each of them,
before binding and after it. Two names with symbols of their own do not share one. -/
theorem located_parseText (limit : Nat) (text : String) :
    let s := (parseText limit text).specification
    let t := (buildScopes s).table
    s.visits.map Visit.name = s.located.map (·.name) ∧
      (s.located.map (·.name.span.offset)).Nodup ∧
      (∀ l ∈ s.located, l.Shown t ∧ l.Shown (bindUnit s t).table) ∧
      ∀ l ∈ s.located, ∀ m ∈ s.located, l.form.isOwn = true → m.form.isOwn = true →
        t.definedAt? l.name.span = t.definedAt? m.name.span → l = m := by
  intro s t
  have apart : Apart s.declarations := (wellPlaced_parseText limit text).apart
  have tour := tour_buildScopes s
  have lasting : Lasting t ⟨.empty, []⟩ s.visits := tour.lasting scopeTree_empty apart
  have enters := enters_visits lasting
  have shown := shown_of_lasting enters lasting
  have names := names_of_enters enters
  have offsets := congrArg (List.map fun name : Ident => name.span.offset)
    (names.symm.trans tour.names)
  rw [List.map_map, List.map_map] at offsets
  have located : (s.located.map (·.name.span.offset)).Nodup := offsets.symm ▸ apart
  refine ⟨names, located,
    fun l mem => ⟨shown l mem, (shown l mem).congr (settling_bindUnit s t).frame⟩, ?_⟩
  intro l mem m other own own' same
  obtain ⟨_, id, found⟩ := (shown l mem).found_of_isOwn own
  obtain ⟨_, id', found'⟩ := (shown m other).found_of_isOwn own'
  have one : id = id' :=
    Option.some.inj (found.sited.place.symm.trans (same.trans found'.sited.place))
  have states := (found.own own).symm.trans (one ▸ found'.own own')
  exact List.inj_on_of_nodup_map located mem other
    (congrArg (fun state : Span × Bool => state.1.offset) states)

end Idl
