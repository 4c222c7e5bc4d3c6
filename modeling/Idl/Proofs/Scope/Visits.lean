import Idl.Proofs.Scope.Moves

/-!
The operations of the builder as a list, in the order in which it walks over a tree. Each is made in
a scope that is in use, and there is one for each declaration of the tree. Main statements:
`tour_buildScopes` and `moves_buildScopes`.
-/

set_option autoImplicit false

namespace Idl

/-- One operation of the builder, with the scope in which it is made. -/
inductive Visit
  | declare (scope : SymbolId) (name : Ident) (kind : SymbolKind)
  | const (scope : SymbolId) (name : Ident)
  | openModule (scope : SymbolId) (name : Ident)
  | complete (scope : SymbolId) (name : Ident) (kind : ForwardKind)
  | announce (scope : SymbolId) (d : ForwardDecl)
  | enumerator (scope enum : SymbolId) (name : Ident) (ordinal : Nat)
deriving DecidableEq, Repr

namespace Visit

def name : Visit → Ident
  | declare _ name _ | const _ name | openModule _ name | complete _ name _ => name
  | announce _ d => d.name
  | enumerator _ _ name _ => name

def apply (b : ScopeBuilder) : Visit → ScopeBuilder
  | declare scope name kind => (b.declare scope name kind).2
  | const scope name => b.enterConst scope name
  | openModule scope name => (b.openModule scope name).2
  | complete scope name kind => (b.complete scope name kind).2
  | announce scope d => b.announce scope d
  | enumerator scope enum name ordinal => b.enumerator scope enum name ordinal

/-- The scope is in use, and the kind is one that is entered this way. -/
def Valid (b : ScopeBuilder) : Visit → Prop
  | declare scope _ kind =>
    scope < b.table.size ∧ kind.FitsIn scope ∧ ∀ forward, kind ≠ .ofForward forward
  | const scope _ | openModule scope _ | complete scope _ _ | announce scope _ =>
    scope < b.table.size
  | enumerator scope enum _ _ => scope < b.table.size ∧ enum < b.table.size ∧
    b.table.kind enum = .enum ∧ (b.table.symbol enum).parent = some scope

/-- The operation enters what is declared. -/
inductive Declares : Visit → Declaration → Prop
  | declare {scope : SymbolId} {name : Ident} {kind : SymbolKind} :
    Declares (.declare scope name kind) ⟨name, .defined kind⟩
  | flag {scope bitmask : SymbolId} {name owner : Ident} {index : Nat} :
    Declares (.declare scope name (.bitValue bitmask index)) ⟨name, .listed owner⟩
  | const {scope : SymbolId} {name : Ident} : Declares (.const scope name) ⟨name, .defined .const⟩
  | openModule {scope : SymbolId} {name : Ident} : Declares (.openModule scope name) ⟨name, .module⟩
  | complete {scope : SymbolId} {name : Ident} {kind : ForwardKind} :
    Declares (.complete scope name kind) ⟨name, .defined (.ofForward kind)⟩
  | announce {scope : SymbolId} {d : ForwardDecl} :
    Declares (.announce scope d) ⟨d.name, .announced d.kind⟩
  | enumerator {scope enum : SymbolId} {name owner : Ident} {ordinal : Nat} :
    Declares (.enumerator scope enum name ordinal) ⟨name, .listed owner⟩

theorem Declares.name {v : Visit} {d : Declaration} (declares : v.Declares d) : v.name = d.name := by
  cases declares <;> rfl

end Visit

/-! The walk. -/

namespace ScopeBuilder

def enumVisits (scope : SymbolId) (t : EnumType) (b : ScopeBuilder) : List Visit :=
  let (id, _) := b.declare scope t.name .enum
  .declare scope t.name .enum ::
    (t.enumerators.map (·.name)).zipIdx.map fun (name, ordinal) => .enumerator scope id name ordinal

def bitmaskVisits (scope : SymbolId) (t : BitmaskType) (b : ScopeBuilder) : List Visit :=
  let (id, _) := b.declare scope t.name .bitmask
  .declare scope t.name .bitmask ::
    t.values.zipIdx.map fun (v, index) => .declare id v.name (.bitValue id index)

mutual

/-- What is entered of a type, where `b` is the builder that comes to it. -/
def typeSpecVisits (scope : SymbolId) : TypeSpec → ScopeBuilder → List Visit
  | .struct ⟨name, _, fields, _⟩, b =>
    let (id, b) := b.complete scope name .struct
    .complete scope name .struct :: memberVisits id fields b
  | .union ⟨name, ⟨_, type, _⟩, cases, _⟩, b =>
    let (id, b) := b.complete scope name .union
    .complete scope name .union ::
      (typeSpecVisits id type b ++ caseVisits id cases (typeSpec id type b))
  | .enum t, b => enumVisits scope t b
  | .bitset t, _ => [.declare scope t.name .bitset]
  | .bitmask t, b => bitmaskVisits scope t b
  | .sequence element _, b => typeSpecVisits scope element b
  | .set element _, b => typeSpecVisits scope element b
  | .map key value _, b =>
    typeSpecVisits scope key b ++ typeSpecVisits scope value (typeSpec scope key b)
  | .primitive _, _ => []
  | .named _, _ => []
  | .string _, _ => []
  | .wstring _, _ => []
  | .fixed _, _ => []

def memberVisits (scope : SymbolId) : List (Member TypeSpec) → ScopeBuilder → List Visit
  | [], _ => []
  | ⟨_, type, _, _⟩ :: rest, b =>
    typeSpecVisits scope type b ++ memberVisits scope rest (typeSpec scope type b)

def caseVisits (scope : SymbolId) : List (UnionCase TypeSpec) → ScopeBuilder → List Visit
  | [], _ => []
  | ⟨_, _, type, _, _⟩ :: rest, b =>
    typeSpecVisits scope type b ++ caseVisits scope rest (typeSpec scope type b)

end

def typedefVisits (scope : SymbolId) (d : Typedef) (b : ScopeBuilder) : List Visit :=
  typeSpecVisits scope d.type b ++ d.declarators.map fun d => .declare scope d.name .typedef

mutual

/-- What is entered of a definition, where `b` is the builder that comes to it. -/
def definitionVisits (scope : SymbolId) : Definition → ScopeBuilder → List Visit
  | ⟨_, kind, _⟩, b => kindVisits scope kind b

def kindVisits (scope : SymbolId) : DefinitionKind Definition → ScopeBuilder → List Visit
  | .module ⟨name, ds⟩, b =>
    let (id, b) := b.openModule scope name
    .openModule scope name :: allVisits id ds b
  | .struct t, b => typeSpecVisits scope (.struct t) b
  | .union t, b => typeSpecVisits scope (.union t) b
  | .enum t, b => enumVisits scope t b
  | .bitset t, _ => [.declare scope t.name .bitset]
  | .bitmask t, b => bitmaskVisits scope t b
  | .typedef d, b => typedefVisits scope d b
  | .const d, _ => [.const scope d.name]
  | .exception d, b =>
    let (id, b) := b.declare scope d.name .exception
    .declare scope d.name .exception :: memberVisits id d.members b
  | .native name, _ => [.declare scope name .native]
  | .forward d, _ => [.announce scope d]
  | .interface ⟨name, _, _, body⟩, b =>
    let (id, b) := b.complete scope name .interface
    .complete scope name .interface :: exportVisits id body b
  | .value ⟨name, _, _, _, _, body⟩, b =>
    let (id, b) := b.complete scope name .value
    .complete scope name .value :: exportVisits id body b
  | .event ⟨name, _, _, _, _, body⟩, b =>
    let (id, b) := b.complete scope name .event
    .complete scope name .event :: exportVisits id body b
  | .valueBox d, _ => [.declare scope d.name .valueBox]
  | .component ⟨name, _, _, body⟩, b =>
    let (id, b) := b.complete scope name .component
    .complete scope name .component :: exportVisits id body b
  | .home ⟨name, _, _, _, _, body⟩, b =>
    let (id, b) := b.declare scope name .home
    .declare scope name .home :: exportVisits id body b
  | .annotationDecl _, _ => []
  | .typeId _, _ => []
  | .typePrefix _, _ => []

def allVisits (scope : SymbolId) : List Definition → ScopeBuilder → List Visit
  | [], _ => []
  | d :: ds, b => definitionVisits scope d b ++ allVisits scope ds (definition scope d b)

def exportVisits (scope : SymbolId) : List (Export Definition) → ScopeBuilder → List Visit
  | [], _ => []
  | .definition d :: rest, b =>
    definitionVisits scope d b ++ exportVisits scope rest (definition scope d b)
  | .stateMember m :: rest, b =>
    typeSpecVisits scope m.member.type b ++
      exportVisits scope rest (typeSpec scope m.member.type b)
  | .attribute _ :: rest, b => exportVisits scope rest b
  | .operation _ :: rest, b => exportVisits scope rest b
  | .initializer _ :: rest, b => exportVisits scope rest b
  | .port _ :: rest, b => exportVisits scope rest b

end

end ScopeBuilder

/-- The operations that enter a unit. -/
def Specification.visits (s : Specification) : List Visit :=
  ScopeBuilder.allVisits SymbolTable.rootId s.definitions ⟨.empty, []⟩

/-- The operations lead from one builder to another, and enter the declarations. -/
inductive Tour : ScopeBuilder → List Visit → List Declaration → ScopeBuilder → Prop
  | nil (b : ScopeBuilder) : Tour b [] [] b
  | cons {b b' : ScopeBuilder} {v : Visit} {vs : List Visit} {d : Declaration}
      {ds : List Declaration} (valid : v.Valid b) (declares : v.Declares d)
      (rest : Tour (v.apply b) vs ds b') : Tour b (v :: vs) (d :: ds) b'

namespace Tour

variable {b b' b'' : ScopeBuilder} {v : Visit} {vs ws : List Visit} {d : Declaration}
  {ds es : List Declaration}

theorem append (first : Tour b vs ds b') (second : Tour b' ws es b'') :
    Tour b (vs ++ ws) (ds ++ es) b'' := by
  induction first with
  | nil => exact second
  | cons valid declares _ ih => exact .cons valid declares (ih second)

theorem single (valid : v.Valid b) (declares : v.Declares d) : Tour b [v] [d] (v.apply b) :=
  .cons valid declares (.nil _)

/-- The operations are what is made of the builder. -/
theorem foldl_eq (tour : Tour b vs ds b') : vs.foldl Visit.apply b = b' := by
  induction tour with
  | nil => rfl
  | cons _ _ _ ih => exact ih

theorem names (tour : Tour b vs ds b') : vs.map Visit.name = ds.map (·.name) := by
  induction tour with
  | nil => rfl
  | cons _ declares _ ih => rw [List.map_cons, List.map_cons, ih, declares.name]

/-- No declaration is passed over. -/
theorem exists_visit (tour : Tour b vs ds b') (mem : d ∈ ds) : ∃ v ∈ vs, v.Declares d := by
  induction tour with
  | nil => cases mem
  | cons _ declares _ ih =>
    rcases List.mem_cons.mp mem with rfl | mem
    · exact ⟨_, List.mem_cons_self, declares⟩
    · obtain ⟨v, inside, declares⟩ := ih mem
      exact ⟨v, List.mem_cons_of_mem _ inside, declares⟩

theorem split {vs : List Visit} (tour : Tour b (vs ++ ws) ds b'') :
    ∃ es fs, ds = es ++ fs ∧ Tour b vs es (vs.foldl Visit.apply b) ∧
      Tour (vs.foldl Visit.apply b) ws fs b'' := by
  induction vs generalizing b ds with
  | nil => exact ⟨[], ds, rfl, .nil b, tour⟩
  | cons v vs ih =>
    cases tour with
    | cons valid declares rest =>
      obtain ⟨es, fs, rfl, first, second⟩ := ih rest
      exact ⟨_ :: es, fs, rfl, .cons valid declares first, second⟩

end Tour

section

variable {P : Ident → Prop} {b b' : ScopeBuilder} {v : Visit} {vs : List Visit}
  {ds : List Declaration}

theorem Visit.Valid.moves (valid : v.Valid b) (named : P v.name) : Moves P b (v.apply b) := by
  cases v with
  | declare scope name kind => exact .single (.declare kind valid.1 named valid.2.1)
  | const scope name =>
    exact .head (.declare .const valid named trivial) (.single (.setConstant _ .pending))
  | openModule scope name => exact .single (.openModule valid named)
  | complete scope name kind => exact .single (.complete kind valid named)
  | announce scope d => exact .single (.announce valid named)
  | enumerator scope enum name ordinal =>
    obtain ⟨inside, used, kind, parent⟩ := valid
    exact .single (.enumerator ordinal inside used kind parent named)

theorem Visit.Valid.widens (valid : v.Valid b) : Widens b.table (v.apply b).table :=
  (valid.moves (P := fun _ => True) trivial).widens

theorem Tour.moves (tour : Tour b vs ds b') (named : NamedBy P ds) : Moves P b b' := by
  induction tour with
  | nil => exact .refl
  | cons valid declares _ ih =>
    rw [namedBy_cons] at named
    exact (valid.moves (declares.name ▸ named.1)).trans (ih named.2)

theorem Tour.widens (tour : Tour b vs ds b') : Widens b.table b'.table :=
  (tour.moves (P := fun _ => True) fun _ _ => trivial).widens

end

/-! The walk is a tour. -/

namespace ScopeBuilder

variable {b : ScopeBuilder} {scope : SymbolId}

theorem tour_declare (name : Ident) (kind : SymbolKind) (inside : scope < b.table.size)
    (fits : kind.FitsIn scope) (other : ∀ forward, kind ≠ .ofForward forward) :
    Tour b [.declare scope name kind] [⟨name, .defined kind⟩] (b.declare scope name kind).2 :=
  .single ⟨inside, fits, other⟩ .declare

theorem ne_ofForward {kind : SymbolKind}
    (other : ¬ (kind = .struct ∨ kind = .union ∨ kind = .interface ∨ kind = .value ∨
      kind = .event ∨ kind = .component)) (forward : ForwardKind) : kind ≠ .ofForward forward := by
  rintro rfl
  cases forward <;> simp [SymbolKind.ofForward] at other

theorem tour_enumerators (owner : Ident) (names : List Ident) (start : Nat) {enum : SymbolId}
    (inside : scope < b.table.size) (used : enum < b.table.size)
    (kind : b.table.kind enum = .enum) (parent : (b.table.symbol enum).parent = some scope) :
    Tour b ((names.zipIdx start).map fun x => .enumerator scope enum x.1 x.2)
      (names.map fun name => ⟨name, .listed owner⟩)
      ((names.zipIdx start).foldl (fun b x => enumerator scope enum b x.1 x.2) b) := by
  induction names generalizing start b with
  | nil => exact .nil b
  | cons n names ih =>
    have valid : (Visit.enumerator scope enum n start).Valid b := ⟨inside, used, kind, parent⟩
    have widens := valid.widens
    exact .cons valid .enumerator (ih (start + 1) (widens.lt_size inside) (widens.lt_size used)
      ((widens.kind used).trans kind) ((widens.parent used).trans parent))

theorem tour_enumType (t : EnumType) (inside : scope < b.table.size) :
    Tour b (enumVisits scope t b) (listing t.name .enum t.enumerators) (b.enumType scope t) := by
  have first : Visit.Valid b (.declare scope t.name .enum) :=
    ⟨inside, trivial, ne_ofForward (by simp)⟩
  have place := place_declare b scope t.name .enum
  have rest := tour_enumerators t.name (t.enumerators.map (·.name)) 0
    (first.widens.lt_size inside) (lt_size_declare .enum)
    (congrArg (fun place => place.2.1) place) (congrArg (fun place => place.2.2) place)
  rw [List.map_map] at rest
  exact .cons first .declare rest

theorem tour_flags (owner : Ident) (values : List Enumerator) (start : Nat) {bitmask : SymbolId}
    (used : bitmask < b.table.size) :
    Tour b ((values.zipIdx start).map fun x => .declare bitmask x.1.name (.bitValue bitmask x.2))
      (values.map fun v => ⟨v.name, .listed owner⟩)
      ((values.zipIdx start).foldl
        (fun b x => (b.declare bitmask x.1.name (.bitValue bitmask x.2)).2) b) := by
  induction values generalizing start b with
  | nil => exact .nil b
  | cons v values ih =>
    have valid : Visit.Valid b (.declare bitmask v.name (.bitValue bitmask start)) :=
      ⟨used, rfl, ne_ofForward (by simp)⟩
    exact .cons valid .flag (ih (start + 1) (valid.widens.lt_size used))

theorem tour_bitmaskType (t : BitmaskType) (inside : scope < b.table.size) :
    Tour b (bitmaskVisits scope t b) (listing t.name .bitmask t.values)
      (b.bitmaskType scope t) := by
  have first : Visit.Valid b (.declare scope t.name .bitmask) :=
    ⟨inside, trivial, ne_ofForward (by simp)⟩
  exact .cons first .declare (tour_flags t.name t.values 0 (lt_size_declare .bitmask))

mutual

theorem tour_typeSpec (scope : SymbolId) : (τ : TypeSpec) → (b : ScopeBuilder) →
    scope < b.table.size →
    Tour b (typeSpecVisits scope τ b) τ.declarations (typeSpec scope τ b)
  | .struct ⟨name, _, fields, _⟩, b, inside => by
    rw [typeSpecVisits, TypeSpec.declarations, typeSpec]
    exact .cons inside .complete (tour_members _ fields _ (lt_size_complete .struct))
  | .union ⟨name, ⟨_, type, _⟩, cases, _⟩, b, inside => by
    rw [typeSpecVisits, TypeSpec.declarations, typeSpec]
    have inner := tour_typeSpec (b.complete scope name .union).1 type _ (lt_size_complete .union)
    exact .cons inside .complete (inner.append
      (tour_unionCases _ cases _ (inner.widens.lt_size (lt_size_complete .union))))
  | .enum t, b, inside => by
    rw [typeSpecVisits, TypeSpec.declarations, typeSpec]
    exact tour_enumType t inside
  | .bitset t, b, inside => by
    rw [typeSpecVisits, TypeSpec.declarations, typeSpec]
    exact tour_declare t.name .bitset inside trivial (ne_ofForward (by simp))
  | .bitmask t, b, inside => by
    rw [typeSpecVisits, TypeSpec.declarations, typeSpec]
    exact tour_bitmaskType t inside
  | .sequence element _, b, inside => by
    rw [typeSpecVisits, TypeSpec.declarations, typeSpec]
    exact tour_typeSpec scope element b inside
  | .set element _, b, inside => by
    rw [typeSpecVisits, TypeSpec.declarations, typeSpec]
    exact tour_typeSpec scope element b inside
  | .map key value _, b, inside => by
    rw [typeSpecVisits, TypeSpec.declarations, typeSpec]
    have first := tour_typeSpec scope key b inside
    exact first.append (tour_typeSpec scope value _ (first.widens.lt_size inside))
  | .primitive _, b, _ => by
    rw [typeSpecVisits, TypeSpec.declarations, typeSpec]
    exact .nil b
  | .named _, b, _ => by
    rw [typeSpecVisits, TypeSpec.declarations, typeSpec]
    exact .nil b
  | .string _, b, _ => by
    rw [typeSpecVisits, TypeSpec.declarations, typeSpec]
    exact .nil b
  | .wstring _, b, _ => by
    rw [typeSpecVisits, TypeSpec.declarations, typeSpec]
    exact .nil b
  | .fixed _, b, _ => by
    rw [typeSpecVisits, TypeSpec.declarations, typeSpec]
    exact .nil b

theorem tour_members (scope : SymbolId) : (ms : List (Member TypeSpec)) → (b : ScopeBuilder) →
    scope < b.table.size → Tour b (memberVisits scope ms b) (memberDeclarations ms)
      (members scope ms b)
  | [], b, _ => by
    rw [memberVisits, memberDeclarations, members]
    exact .nil b
  | ⟨_, type, _, _⟩ :: rest, b, inside => by
    rw [memberVisits, memberDeclarations, members]
    have first := tour_typeSpec scope type b inside
    exact first.append (tour_members scope rest _ (first.widens.lt_size inside))

theorem tour_unionCases (scope : SymbolId) : (cs : List (UnionCase TypeSpec)) →
    (b : ScopeBuilder) → scope < b.table.size →
    Tour b (caseVisits scope cs b) (caseDeclarations cs) (unionCases scope cs b)
  | [], b, _ => by
    rw [caseVisits, caseDeclarations, unionCases]
    exact .nil b
  | ⟨_, _, type, _, _⟩ :: rest, b, inside => by
    rw [caseVisits, caseDeclarations, unionCases]
    have first := tour_typeSpec scope type b inside
    exact first.append (tour_unionCases scope rest _ (first.widens.lt_size inside))

end

theorem tour_declarators (names : List Declarator) (inside : scope < b.table.size) :
    Tour b (names.map fun d => .declare scope d.name .typedef)
      (names.map fun d => ⟨d.name, .defined .typedef⟩)
      (names.foldl (fun b d => (b.declare scope d.name .typedef).2) b) := by
  induction names generalizing b with
  | nil => exact .nil b
  | cons d names ih =>
    have valid : Visit.Valid b (.declare scope d.name .typedef) :=
      ⟨inside, trivial, ne_ofForward (by simp)⟩
    exact .cons valid .declare (ih (valid.widens.lt_size inside))

theorem tour_typedef (d : Typedef) (inside : scope < b.table.size) :
    Tour b (typedefVisits scope d b) d.declarations (typedef scope d b) := by
  have first := tour_typeSpec scope d.type b inside
  exact first.append (tour_declarators d.declarators (first.widens.lt_size inside))

mutual

theorem tour_definition (scope : SymbolId) : (d : Definition) → (b : ScopeBuilder) →
    scope < b.table.size →
    Tour b (definitionVisits scope d b) d.declarations (definition scope d b)
  | ⟨_, kind, _⟩, b, inside => by
    rw [definitionVisits, Definition.declarations, definition]
    exact tour_definitionKind scope kind b inside

theorem tour_definitionKind (scope : SymbolId) : (kind : DefinitionKind Definition) →
    (b : ScopeBuilder) → scope < b.table.size →
    Tour b (kindVisits scope kind b) (kindDeclarations kind) (definitionKind scope kind b)
  | .module ⟨name, ds⟩, b, inside => by
    rw [kindVisits, kindDeclarations, definitionKind]
    exact .cons inside .openModule (tour_definitions _ ds _ lt_size_openModule)
  | .struct t, b, inside => by
    rw [kindVisits, kindDeclarations, definitionKind]
    exact tour_typeSpec scope (.struct t) b inside
  | .union t, b, inside => by
    rw [kindVisits, kindDeclarations, definitionKind]
    exact tour_typeSpec scope (.union t) b inside
  | .enum t, b, inside => by
    rw [kindVisits, kindDeclarations, definitionKind]
    exact tour_enumType t inside
  | .bitset t, b, inside => by
    rw [kindVisits, kindDeclarations, definitionKind]
    exact tour_declare t.name .bitset inside trivial (ne_ofForward (by simp))
  | .bitmask t, b, inside => by
    rw [kindVisits, kindDeclarations, definitionKind]
    exact tour_bitmaskType t inside
  | .typedef d, b, inside => by
    rw [kindVisits, kindDeclarations, definitionKind]
    exact tour_typedef d inside
  | .const d, b, inside => by
    rw [kindVisits, kindDeclarations, definitionKind]
    exact .single (v := .const scope d.name) inside .const
  | .exception d, b, inside => by
    rw [kindVisits, kindDeclarations, definitionKind]
    have first := tour_declare d.name .exception inside trivial (ne_ofForward (by simp))
    exact first.append (tour_members _ d.members _ (lt_size_declare .exception))
  | .native name, b, inside => by
    rw [kindVisits, kindDeclarations, definitionKind]
    exact tour_declare name .native inside trivial (ne_ofForward (by simp))
  | .forward d, b, inside => by
    rw [kindVisits, kindDeclarations, definitionKind]
    exact .single (v := .announce scope d) inside .announce
  | .interface ⟨name, _, _, body⟩, b, inside => by
    rw [kindVisits, kindDeclarations, definitionKind]
    exact .cons inside .complete (tour_exports _ body _ (lt_size_complete .interface))
  | .value ⟨name, _, _, _, _, body⟩, b, inside => by
    rw [kindVisits, kindDeclarations, definitionKind]
    exact .cons inside .complete (tour_exports _ body _ (lt_size_complete .value))
  | .event ⟨name, _, _, _, _, body⟩, b, inside => by
    rw [kindVisits, kindDeclarations, definitionKind]
    exact .cons inside .complete (tour_exports _ body _ (lt_size_complete .event))
  | .valueBox d, b, inside => by
    rw [kindVisits, kindDeclarations, definitionKind]
    exact tour_declare d.name .valueBox inside trivial (ne_ofForward (by simp))
  | .component ⟨name, _, _, body⟩, b, inside => by
    rw [kindVisits, kindDeclarations, definitionKind]
    exact .cons inside .complete (tour_exports _ body _ (lt_size_complete .component))
  | .home ⟨name, _, _, _, _, body⟩, b, inside => by
    rw [kindVisits, kindDeclarations, definitionKind]
    have first := tour_declare name .home inside trivial (ne_ofForward (by simp))
    exact first.append (tour_exports _ body _ (lt_size_declare .home))
  | .annotationDecl _, b, _ => by
    rw [kindVisits, kindDeclarations, definitionKind]
    exact .nil b
  | .typeId _, b, _ => by
    rw [kindVisits, kindDeclarations, definitionKind]
    exact .nil b
  | .typePrefix _, b, _ => by
    rw [kindVisits, kindDeclarations, definitionKind]
    exact .nil b

theorem tour_definitions (scope : SymbolId) : (ds : List Definition) → (b : ScopeBuilder) →
    scope < b.table.size →
    Tour b (allVisits scope ds b) (allDeclarations ds) (definitions scope ds b)
  | [], b, _ => by
    rw [allVisits, allDeclarations, definitions]
    exact .nil b
  | d :: rest, b, inside => by
    rw [allVisits, allDeclarations, definitions]
    have first := tour_definition scope d b inside
    exact first.append (tour_definitions scope rest _ (first.widens.lt_size inside))

theorem tour_exports (scope : SymbolId) : (body : List (Export Definition)) →
    (b : ScopeBuilder) → scope < b.table.size →
    Tour b (exportVisits scope body b) (exportDeclarations body) (exports scope body b)
  | [], b, _ => by
    rw [exportVisits, exportDeclarations, exports]
    exact .nil b
  | .definition d :: rest, b, inside => by
    rw [exportVisits, exportDeclarations, exports]
    have first := tour_definition scope d b inside
    exact first.append (tour_exports scope rest _ (first.widens.lt_size inside))
  | .stateMember m :: rest, b, inside => by
    rw [exportVisits, exportDeclarations, exports]
    have first := tour_typeSpec scope m.member.type b inside
    exact first.append (tour_exports scope rest _ (first.widens.lt_size inside))
  | .attribute _ :: rest, b, inside => by
    rw [exportVisits, exportDeclarations, exports]
    exact tour_exports scope rest b inside
  | .operation _ :: rest, b, inside => by
    rw [exportVisits, exportDeclarations, exports]
    exact tour_exports scope rest b inside
  | .initializer _ :: rest, b, inside => by
    rw [exportVisits, exportDeclarations, exports]
    exact tour_exports scope rest b inside
  | .port _ :: rest, b, inside => by
    rw [exportVisits, exportDeclarations, exports]
    exact tour_exports scope rest b inside

end

end ScopeBuilder

/-- The operations of a unit enter its declarations, each one. -/
theorem tour_buildScopes (s : Specification) :
    Tour ⟨.empty, []⟩ s.visits s.declarations (buildScopes s) :=
  ScopeBuilder.tour_definitions SymbolTable.rootId s.definitions _ Nat.one_pos

/-- The table of a unit is made by its operations and by nothing else. -/
theorem foldl_visits (s : Specification) :
    s.visits.foldl Visit.apply ⟨.empty, []⟩ = buildScopes s :=
  (tour_buildScopes s).foldl_eq

theorem moves_buildScopes {P : Ident → Prop} (s : Specification)
    (named : NamedBy P s.declarations) : Moves P ⟨.empty, []⟩ (buildScopes s) :=
  (tour_buildScopes s).moves named

end Idl
