import Idl.Proofs.Scope.Frame
import Idl.Proofs.Scope.Pending
import Idl.Proofs.Scope.Walk
import Idl.Proofs.Syntax.Enums

/-!
The values in the symbol table of a unit before any constant is reached: enumerators of the enums
that the unit declares. Main statement: `enumerators_buildScopes`.
-/

set_option autoImplicit false

namespace Idl

/-- The enum with the symbol is one of the unit, and its enumerator of the ordinal has the name. -/
structure Specification.Enumerates (s : Specification) (t : SymbolTable) (e : SymbolId)
    (ordinal : Nat) (name : String) : Prop where
  declared : ∃ enum ∈ s.enums, t.definedAt? enum.name.span = some e
  listed : ∀ enum ∈ s.enums, t.definedAt? enum.name.span = some e →
    enum.enumerators[ordinal]?.map (·.name.name) = some name

theorem Specification.Enumerates.congr {s : Specification} {t u : SymbolTable} {e : SymbolId}
    {ordinal : Nat} {name : String} (enumerates : s.Enumerates t e ordinal name)
    (same : SameFrame t u) : s.Enumerates u e ordinal name := by
  obtain ⟨⟨enum, mem, place⟩, listed⟩ := enumerates
  exact ⟨⟨enum, mem, (same.definedAt? _).trans place⟩,
    fun enum mem place => listed enum mem ((same.definedAt? _).symm.trans place)⟩

/-! Changes that set no value. -/

/-- No value is new, no enum is another thing by now, and places that newly lead to a symbol lead
to none that was an enum. -/
structure Spares (t u : SymbolTable) : Prop where
  size : t.size ≤ u.size
  kinds : ∀ i, t.kind i = .enum → u.kind i = .enum
  places : ∀ offset i, u.defining.lookup offset = some i →
    t.defining.lookup offset = some i ∨ t.kind i ≠ .enum ∧ i < u.size
  values : ∀ i constant, (u.symbol i).constant = .value constant →
    (t.symbol i).constant = .value constant

namespace Spares

section

variable {t u v : SymbolTable} {id : SymbolId}

theorem refl (t : SymbolTable) : Spares t t :=
  ⟨Nat.le_refl _, fun _ kind => kind, fun _ _ found => .inl found, fun _ _ value => value⟩

theorem trans (first : Spares t u) (second : Spares u v) : Spares t v where
  size := Nat.le_trans first.size second.size
  kinds i kind := second.kinds i (first.kinds i kind)
  places offset i found := by
    rcases second.places offset i found with found | ⟨unlike, used⟩
    · exact (first.places offset i found).imp id fun ⟨unlike, used⟩ =>
        ⟨unlike, Nat.lt_of_lt_of_le used second.size⟩
    · exact .inr ⟨fun kind => unlike (first.kinds i kind), used⟩
  values i constant value := first.values i constant (second.values i constant value)

theorem modify (t : SymbolTable) (id : SymbolId) {f : Symbol → Symbol}
    (kind : ∀ s, (f s).kind = s.kind)
    (value : ∀ s constant, (f s).constant = .value constant → s.constant = .value constant) :
    Spares t (t.modify id f) where
  size := Nat.le_of_eq (t.size_modify id f).symm
  kinds i enum := (t.modify_aspect Symbol.kind id i f kind).trans enum
  places _ _ found := .inl found
  values i constant set := by
    rw [SymbolTable.symbol_modify] at set
    split at set
    · exact value _ _ set
    · exact set

theorem redeclare (t : SymbolTable) (scope : SymbolId) (name : Ident) (previous : SymbolId) :
    Spares t (t.redeclare scope name previous) :=
  ⟨Nat.le_refl _, fun _ kind => kind, fun _ _ found => .inl found, fun _ _ value => value⟩

theorem bindSpan (t : SymbolTable) (span : Span) (unlike : t.kind id ≠ .enum)
    (used : id < t.size) : Spares t (t.bindSpan span id) where
  size := Nat.le_refl _
  kinds _ kind := kind
  places offset i found := by
    rw [SymbolTable.bindSpan, List.lookup_cons] at found
    split at found
    · rw [Option.some_inj] at found
      subst found
      exact .inr ⟨unlike, used⟩
    · exact .inl found
  values _ _ value := value

theorem addDetached (t : SymbolTable) (scope : SymbolId) (name : Ident) (kind : SymbolKind) :
    Spares t (t.addDetached scope name kind).2 where
  size := by
    rw [SymbolTable.size_addDetached]
    exact Nat.le_succ _
  kinds i enum := by
    have used := t.lt_size_of_kind_ne_root (by rw [enum]; decide)
    rw [SymbolTable.kind, SymbolTable.symbol_addDetached, if_neg (Nat.ne_of_lt used)]
    exact enum
  places offset i found := by
    rw [SymbolTable.defining_addDetached, List.lookup_cons] at found
    split at found
    · rw [Option.some_inj] at found
      subst found
      rw [t.kind_of_size_le (Nat.le_refl _), SymbolTable.size_addDetached]
      exact .inr ⟨by decide, Nat.lt_succ_self _⟩
    · exact .inl found
  values i constant value := by
    rwa [t.addDetached_aspect Symbol.constant scope i name kind rfl] at value

theorem addMember (t : SymbolTable) (scope : SymbolId) (name : String) (id : SymbolId) :
    Spares t (t.addMember scope name id) :=
  modify t scope (fun _ => rfl) fun _ _ value => value

theorem add (t : SymbolTable) (scope : SymbolId) (name : Ident) (kind : SymbolKind) :
    Spares t (t.add scope name kind).2 :=
  (addDetached t scope name kind).trans (addMember _ scope name.name _)

end

/-! Each operation of the builder. -/

variable (b : ScopeBuilder) (scope : SymbolId) (name : Ident)

theorem addDuplicate (kind : SymbolKind) (previous : SymbolId) :
    Spares b.table (b.addDuplicate scope name kind previous).2.table :=
  (redeclare b.table scope name previous).trans (addDetached _ scope name kind)

theorem declare (kind : SymbolKind) : Spares b.table (b.declare scope name kind).2.table := by
  rw [ScopeBuilder.declare]
  split
  · exact add b.table scope name kind
  · exact addDuplicate b scope name kind _

theorem enterConst : Spares b.table (b.enterConst scope name).table :=
  (declare b scope name .const).trans
    (modify _ _ (f := fun s => { s with constant := .pending }) (fun _ => rfl)
      fun _ _ value => by cases value)

theorem openModule : Spares b.table (b.openModule scope name).2.table := by
  rw [ScopeBuilder.openModule]
  split
  · exact add b.table scope name .module
  · split
    · next module =>
      exact bindSpan b.table name.span (by rw [module]; decide)
        (b.table.lt_size_of_kind_ne_root (by rw [module]; decide))
    · exact addDuplicate b scope name .module _

theorem ofForward_ne_enum (kind : ForwardKind) : SymbolKind.ofForward kind ≠ .enum := by
  cases kind <;> decide

theorem complete (kind : ForwardKind) : Spares b.table (b.complete scope name kind).2.table := by
  simp only [ScopeBuilder.complete]
  split
  · exact add b.table scope name _
  · next existing _ =>
    split
    · exact addDuplicate b scope name _ _
    · next awaited =>
      split
      · exact addDetached b.table scope name _
      · next same =>
        have taken := modify b.table existing
          (f := fun s => { s with isForward := false, span := name.span }) (fun _ => rfl)
          fun _ _ value => value
        have kind_eq : b.table.kind existing = .ofForward kind := Decidable.not_not.mp same
        refine taken.trans (bindSpan _ name.span ?_ ?_)
        · rw [SymbolTable.kind, b.table.modify_aspect Symbol.kind existing existing
            (fun s => { s with isForward := false, span := name.span }) fun _ => rfl]
          exact fun enum => ofForward_ne_enum kind (kind_eq.symm.trans enum)
        · rw [SymbolTable.size_modify]
          exact b.table.lt_size_of_isForward (by simpa using awaited)

theorem announce (d : ForwardDecl) : Spares b.table (b.announce scope d).table := by
  simp only [ScopeBuilder.announce]
  split
  · exact (add b.table scope d.name _).trans (modify _ _ (fun _ => rfl) fun _ _ value => value)
  · split
    · next same =>
      refine bindSpan b.table d.name.span (fun enum => ?_) (b.table.lt_size_of_kind_ne_root ?_)
      · exact ofForward_ne_enum d.kind (same.symm.trans enum)
      · rw [same]
        cases d.kind <;> decide
    · exact redeclare b.table scope d.name _

end Spares

/-! Values on the way. -/

/-- The symbol is an enum, and no other identifier than its own leads to it. -/
structure OnlyAt (t : SymbolTable) (owner : Ident) (e : SymbolId) : Prop where
  kind : t.kind e = .enum
  places : ∀ offset, t.defining.lookup offset = some e → offset = owner.span.offset

/-- Each value of the table is an enumerator that `L` knows of the enum. -/
structure Listed (L : Ident → Nat → String → Prop) (t : SymbolTable) : Prop where
  used : ∀ offset i, t.defining.lookup offset = some i → i < t.size
  values : ∀ i constant, (t.symbol i).constant = .value constant → ∃ owner e ordinal name,
    constant = ⟨.enum e, .enumerator e ordinal name⟩ ∧ L owner ordinal name ∧ OnlyAt t owner e

section

variable {t u : SymbolTable} {owner : Ident} {e : SymbolId} {L : Ident → Nat → String → Prop}

theorem OnlyAt.mono (only : OnlyAt t owner e) (spares : Spares t u) : OnlyAt u owner e where
  kind := spares.kinds e only.kind
  places offset found := by
    rcases spares.places offset e found with found | ⟨unlike, -⟩
    · exact only.places offset found
    · exact absurd only.kind unlike

theorem OnlyAt.setConstant (only : OnlyAt t owner e) (id : SymbolId) (slot : ConstSlot) :
    OnlyAt (t.setConstant id slot) owner e where
  kind := (t.modify_aspect Symbol.kind id e (fun s => { s with constant := slot })
    fun _ => rfl).trans only.kind
  places := only.places

namespace Listed

theorem empty (L : Ident → Nat → String → Prop) : Listed L .empty where
  used _ _ found := by cases found
  values i constant value := by
    have root : SymbolTable.empty.symbol i = Symbol.root := by cases i <;> rfl
    rw [root] at value
    cases value

theorem mono (listed : Listed L t) (spares : Spares t u) : Listed L u where
  used offset i found := by
    rcases spares.places offset i found with found | ⟨-, used⟩
    · exact Nat.lt_of_lt_of_le (listed.used offset i found) spares.size
    · exact used
  values i constant value := by
    obtain ⟨owner, e, ordinal, name, eq, known, only⟩ :=
      listed.values i constant (spares.values i constant value)
    exact ⟨owner, e, ordinal, name, eq, known, only.mono spares⟩

theorem setConstant (listed : Listed L t) (only : OnlyAt t owner e) {ordinal : Nat}
    {name : String} (known : L owner ordinal name) (id : SymbolId) :
    Listed L (t.setConstant id (.value ⟨.enum e, .enumerator e ordinal name⟩)) where
  used offset i found := by
    rw [SymbolTable.setConstant, SymbolTable.size_modify]
    exact listed.used offset i found
  values i constant value := by
    rw [SymbolTable.setConstant, SymbolTable.symbol_modify] at value
    split at value
    · cases value
      exact ⟨owner, e, ordinal, name, rfl, known, only.setConstant id _⟩
    · obtain ⟨owner, e, ordinal, name, eq, known, only⟩ := listed.values i constant value
      exact ⟨owner, e, ordinal, name, eq, known, only.setConstant id _⟩

/-- One enumerator of an enum. -/
theorem enumerator {b : ScopeBuilder} (listed : Listed L b.table) (only : OnlyAt b.table owner e)
    {name : Ident} {ordinal : Nat} (known : L owner ordinal name.name) (scope : SymbolId) :
    Listed L (b.enumerator scope e name ordinal).table ∧
      OnlyAt (b.enumerator scope e name ordinal).table owner e := by
  -- the value is set once the symbol is entered, and nothing else is set
  have entered {u : SymbolTable} (spares : Spares b.table u) (id : SymbolId) :=
    And.intro ((listed.mono spares).setConstant (only.mono spares) known id)
      ((only.mono spares).setConstant id (.value ⟨.enum e, .enumerator e ordinal name.name⟩))
  simp only [ScopeBuilder.enumerator]
  split
  · exact entered (Spares.addDuplicate b e name _ _) _
  · have added := entered (Spares.add b.table e name (.enumerator e ordinal)) b.table.size
    split
    · exact ⟨added.1.mono (Spares.redeclare _ scope name _),
        added.2.mono (Spares.redeclare _ scope name _)⟩
    · exact ⟨added.1.mono (Spares.addMember _ scope name.name _),
        added.2.mono (Spares.addMember _ scope name.name _)⟩

theorem enumerators {scope : SymbolId} (names : List Ident) (start : Nat) {b : ScopeBuilder}
    (listed : Listed L b.table) (only : OnlyAt b.table owner e)
    (known : ∀ x ∈ names.zipIdx start, L owner x.2 x.1.name) :
    Listed L ((names.zipIdx start).foldl (fun b x => b.enumerator scope e x.1 x.2) b).table := by
  induction names generalizing start b with
  | nil => exact listed
  | cons name names ih =>
    rw [List.zipIdx_cons, List.forall_mem_cons] at known
    obtain ⟨listed, only⟩ := listed.enumerator only known.1 scope
    exact ih (start + 1) listed only known.2

/-- The symbol of an enum is new, so only its own identifier leads to it. -/
theorem onlyAt_declare {b : ScopeBuilder} (listed : Listed L b.table) (scope : SymbolId)
    (name : Ident) : OnlyAt (b.declare scope name .enum).2.table name
      (b.declare scope name .enum).1 where
  kind := congrArg (fun place => place.2.1) (b.place_declare scope name .enum)
  places offset found := by
    have id : (b.declare scope name .enum).1 = b.table.size := by
      rw [ScopeBuilder.declare]
      split <;> rfl
    have defining : (b.declare scope name .enum).2.table.defining =
        (name.span.offset, b.table.size) :: b.table.defining := by
      rw [ScopeBuilder.declare]
      split <;> rfl
    rw [id, defining, List.lookup_cons] at found
    split at found
    · next same => exact beq_iff_eq.mp same
    · exact absurd (listed.used offset _ found) (Nat.lt_irrefl _)

end Listed

/-- `L` knows the enumerators of the enum by their ordinals. -/
def Knows (L : Ident → Nat → String → Prop) (t : EnumType) : Prop :=
  ∀ ordinal v, t.enumerators[ordinal]? = some v → L t.name ordinal v.name.name

namespace ScopeBuilder

variable {b : ScopeBuilder}

theorem listed_enumType (listed : Listed L b.table) (scope : SymbolId) {t : EnumType}
    (known : Knows L t) : Listed L (b.enumType scope t).table := by
  rw [enumType]
  refine Listed.enumerators _ 0 (listed.mono (Spares.declare b scope t.name .enum))
    (listed.onlyAt_declare scope t.name) fun x mem => ?_
  have at_ordinal := List.mem_zipIdx_iff_getElem?.mp mem
  rw [List.getElem?_map, Option.map_eq_some_iff] at at_ordinal
  obtain ⟨v, found, name⟩ := at_ordinal
  rw [← name]
  exact known x.2 v found

theorem listed_declarations {α : Type} (name : α → Ident) (kind : α → SymbolKind)
    (scope : SymbolId) (xs : List α) (listed : Listed L b.table) :
    Listed L (xs.foldl (fun b x => (b.declare scope (name x) (kind x)).2) b).table := by
  induction xs generalizing b with
  | nil => exact listed
  | cons x xs ih => exact ih (listed.mono (Spares.declare b scope (name x) (kind x)))

theorem listed_bitmaskType (listed : Listed L b.table) (scope : SymbolId) (t : BitmaskType) :
    Listed L (b.bitmaskType scope t).table := by
  rw [bitmaskType]
  exact listed_declarations (fun x : Enumerator × Nat => x.1.name)
    (fun x => .bitValue (b.declare scope t.name .bitmask).1 x.2) _ _
    (listed.mono (Spares.declare b scope t.name .bitmask))

mutual

theorem listed_typeSpec (scope : SymbolId) : (τ : TypeSpec) → (b : ScopeBuilder) →
    Listed L b.table → (∀ t ∈ τ.enums, Knows L t) → Listed L (typeSpec scope τ b).table
  | .struct ⟨name, _, fields, _⟩, b, listed, known => by
    rw [TypeSpec.enums] at known
    rw [typeSpec]
    exact listed_members _ fields _ (listed.mono (Spares.complete b scope name .struct)) known
  | .union ⟨name, ⟨_, type, _⟩, cases, _⟩, b, listed, known => by
    rw [TypeSpec.enums, List.forall_mem_append] at known
    rw [typeSpec]
    exact listed_unionCases _ cases _ (listed_typeSpec _ type _
      (listed.mono (Spares.complete b scope name .union)) known.1) known.2
  | .enum t, b, listed, known => by
    rw [TypeSpec.enums, List.forall_mem_singleton] at known
    rw [typeSpec]
    exact listed_enumType listed scope known
  | .bitset t, b, listed, _ => by
    rw [typeSpec]
    exact listed.mono (Spares.declare b scope t.name .bitset)
  | .bitmask t, b, listed, _ => by
    rw [typeSpec]
    exact listed_bitmaskType listed scope t
  | .sequence element _, b, listed, known => by
    rw [TypeSpec.enums] at known
    rw [typeSpec]
    exact listed_typeSpec scope element b listed known
  | .set element _, b, listed, known => by
    rw [TypeSpec.enums] at known
    rw [typeSpec]
    exact listed_typeSpec scope element b listed known
  | .map key value _, b, listed, known => by
    rw [TypeSpec.enums, List.forall_mem_append] at known
    rw [typeSpec]
    exact listed_typeSpec scope value _ (listed_typeSpec scope key b listed known.1) known.2
  | .primitive _, _, listed, _ => by rwa [typeSpec]
  | .named _, _, listed, _ => by rwa [typeSpec]
  | .string _, _, listed, _ => by rwa [typeSpec]
  | .wstring _, _, listed, _ => by rwa [typeSpec]
  | .fixed _, _, listed, _ => by rwa [typeSpec]

theorem listed_members (scope : SymbolId) : (ms : List (Member TypeSpec)) → (b : ScopeBuilder) →
    Listed L b.table → (∀ t ∈ memberEnums ms, Knows L t) → Listed L (members scope ms b).table
  | [], _, listed, _ => by rwa [members]
  | ⟨_, type, _, _⟩ :: rest, b, listed, known => by
    rw [memberEnums, List.forall_mem_append] at known
    rw [members]
    exact listed_members scope rest _ (listed_typeSpec scope type b listed known.1) known.2

theorem listed_unionCases (scope : SymbolId) : (cs : List (UnionCase TypeSpec)) →
    (b : ScopeBuilder) → Listed L b.table → (∀ t ∈ caseEnums cs, Knows L t) →
    Listed L (unionCases scope cs b).table
  | [], _, listed, _ => by rwa [unionCases]
  | ⟨_, _, type, _, _⟩ :: rest, b, listed, known => by
    rw [caseEnums, List.forall_mem_append] at known
    rw [unionCases]
    exact listed_unionCases scope rest _ (listed_typeSpec scope type b listed known.1) known.2

end

mutual

theorem listed_definition (scope : SymbolId) : (d : Definition) → (b : ScopeBuilder) →
    Listed L b.table → (∀ t ∈ d.enums, Knows L t) → Listed L (definition scope d b).table
  | ⟨_, kind, _⟩, b, listed, known => by
    rw [Definition.enums] at known
    rw [definition]
    exact listed_definitionKind scope kind b listed known

theorem listed_definitionKind (scope : SymbolId) : (kind : DefinitionKind Definition) →
    (b : ScopeBuilder) → Listed L b.table → (∀ t ∈ kindEnums kind, Knows L t) →
    Listed L (definitionKind scope kind b).table
  | .module ⟨name, ds⟩, b, listed, known => by
    rw [kindEnums] at known
    rw [definitionKind]
    exact listed_definitions _ ds _ (listed.mono (Spares.openModule b scope name)) known
  | .struct t, b, listed, known => by
    rw [kindEnums] at known
    rw [definitionKind]
    exact listed_typeSpec scope (.struct t) b listed known
  | .union t, b, listed, known => by
    rw [kindEnums] at known
    rw [definitionKind]
    exact listed_typeSpec scope (.union t) b listed known
  | .enum t, b, listed, known => by
    rw [kindEnums, List.forall_mem_singleton] at known
    rw [definitionKind]
    exact listed_enumType listed scope known
  | .bitset t, b, listed, _ => by
    rw [definitionKind]
    exact listed.mono (Spares.declare b scope t.name .bitset)
  | .bitmask t, b, listed, _ => by
    rw [definitionKind]
    exact listed_bitmaskType listed scope t
  | .typedef d, b, listed, known => by
    rw [kindEnums] at known
    rw [definitionKind, typedef]
    exact listed_declarations Declarator.name (fun _ => .typedef) scope d.declarators
      (listed_typeSpec scope d.type b listed known)
  | .const d, b, listed, _ => by
    rw [definitionKind]
    exact listed.mono (Spares.enterConst b scope d.name)
  | .exception d, b, listed, known => by
    rw [kindEnums] at known
    rw [definitionKind]
    exact listed_members _ d.members _ (listed.mono (Spares.declare b scope d.name .exception))
      known
  | .native name, b, listed, _ => by
    rw [definitionKind]
    exact listed.mono (Spares.declare b scope name .native)
  | .forward d, b, listed, _ => by
    rw [definitionKind]
    exact listed.mono (Spares.announce b scope d)
  | .interface ⟨name, _, _, body⟩, b, listed, known => by
    rw [kindEnums] at known
    rw [definitionKind]
    exact listed_exports _ body _ (listed.mono (Spares.complete b scope name .interface)) known
  | .value ⟨name, _, _, _, _, body⟩, b, listed, known => by
    rw [kindEnums] at known
    rw [definitionKind]
    exact listed_exports _ body _ (listed.mono (Spares.complete b scope name .value)) known
  | .event ⟨name, _, _, _, _, body⟩, b, listed, known => by
    rw [kindEnums] at known
    rw [definitionKind]
    exact listed_exports _ body _ (listed.mono (Spares.complete b scope name .event)) known
  | .valueBox d, b, listed, _ => by
    rw [definitionKind]
    exact listed.mono (Spares.declare b scope d.name .valueBox)
  | .component ⟨name, _, _, body⟩, b, listed, known => by
    rw [kindEnums] at known
    rw [definitionKind]
    exact listed_exports _ body _ (listed.mono (Spares.complete b scope name .component)) known
  | .home ⟨name, _, _, _, _, body⟩, b, listed, known => by
    rw [kindEnums] at known
    rw [definitionKind]
    exact listed_exports _ body _ (listed.mono (Spares.declare b scope name .home)) known
  | .annotationDecl _, _, listed, _ => by rwa [definitionKind]
  | .typeId _, _, listed, _ => by rwa [definitionKind]
  | .typePrefix _, _, listed, _ => by rwa [definitionKind]

theorem listed_definitions (scope : SymbolId) : (ds : List Definition) → (b : ScopeBuilder) →
    Listed L b.table → (∀ t ∈ allEnums ds, Knows L t) → Listed L (definitions scope ds b).table
  | [], _, listed, _ => by rwa [definitions]
  | d :: rest, b, listed, known => by
    rw [allEnums, List.forall_mem_append] at known
    rw [definitions]
    exact listed_definitions scope rest _ (listed_definition scope d b listed known.1) known.2

theorem listed_exports (scope : SymbolId) : (body : List (Export Definition)) →
    (b : ScopeBuilder) → Listed L b.table → (∀ t ∈ exportEnums body, Knows L t) →
    Listed L (exports scope body b).table
  | [], _, listed, _ => by rwa [exports]
  | .definition d :: rest, b, listed, known => by
    rw [exportEnums, List.forall_mem_append] at known
    rw [exports]
    exact listed_exports scope rest _ (listed_definition scope d b listed known.1) known.2
  | .stateMember m :: rest, b, listed, known => by
    rw [exportEnums, List.forall_mem_append] at known
    rw [exports]
    exact listed_exports scope rest _ (listed_typeSpec scope m.member.type b listed known.1)
      known.2
  | .attribute _ :: rest, b, listed, known => by
    rw [exportEnums] at known
    rw [exports]
    exact listed_exports scope rest b listed known
  | .operation _ :: rest, b, listed, known => by
    rw [exportEnums] at known
    rw [exports]
    exact listed_exports scope rest b listed known
  | .initializer _ :: rest, b, listed, known => by
    rw [exportEnums] at known
    rw [exports]
    exact listed_exports scope rest b listed known
  | .port _ :: rest, b, listed, known => by
    rw [exportEnums] at known
    rw [exports]
    exact listed_exports scope rest b listed known

end

end ScopeBuilder

end

/-- Before any constant is reached, each value in the table of a unit is an enumerator of one of
its enums, under the type of that enum. -/
theorem enumerators_buildScopes {s : Specification} (apart : Apart s.declarations) {i : SymbolId}
    {constant : Constant} (value : ((buildScopes s).table.symbol i).constant = .value constant) :
    ∃ e ordinal name, constant = ⟨.enum e, .enumerator e ordinal name⟩ ∧
      s.Enumerates (buildScopes s).table e ordinal name := by
  let L (owner : Ident) (ordinal : Nat) (name : String) : Prop := ∃ enum ∈ s.enums,
    enum.name = owner ∧ enum.enumerators[ordinal]?.map (·.name.name) = some name
  have listed : Listed L (buildScopes s).table :=
    ScopeBuilder.listed_definitions SymbolTable.rootId s.definitions _ (.empty L)
      fun enum mem ordinal v found => ⟨enum, mem, rfl, by rw [found]; rfl⟩
  obtain ⟨owner, e, ordinal, name, rfl, ⟨enum, mem, rfl, named⟩, only⟩ := listed.values i _ value
  refine ⟨e, ordinal, name, rfl, ⟨enum, mem, ?_⟩, fun other inside place => ?_⟩
  · -- some identifier leads to the symbol, and it can only be that of the enum
    have kind := only.kind
    rcases (entered_buildScopes s apart).sources e (by rw [kind]; rfl) with
      awaited | ⟨at_, -, place⟩
    · obtain ⟨forward, same⟩ := awaited.announced
      exact absurd (same.symm.trans kind) (Spares.ofForward_ne_enum forward)
    · rw [SymbolTable.definedAt?, ← only.places _ place]
      exact place
  · rw [apart.enum_eq inside mem (only.places _ place)]
    exact named

end Idl
