import Idl.Proofs.Layout.Document
import Idl.Proofs.Layout.Names
import Idl.Proofs.Scope.Called

/-!
Types that are written in place, wherever a type may stand, and what becomes of them: all have
symbols but those in value boxes, and all of these have entries but those in state members. Main
statement: `written_known`.
-/

set_option autoImplicit false

namespace Idl

/-- The name that a type defines, and the kind of its symbol. -/
def TypeSpec.constructed? : TypeSpec → Option (Ident × SymbolKind)
  | .struct t => some (t.name, .struct)
  | .union t => some (t.name, .union)
  | .enum t => some (t.name, .enum)
  | .bitset t => some (t.name, .bitset)
  | .bitmask t => some (t.name, .bitmask)
  | _ => none

/-- The type `σ` is written in another, at any depth. -/
inductive TypeSpec.PartOf (σ : TypeSpec) : TypeSpec → Prop
  | self : PartOf σ σ
  | member {t : StructType TypeSpec} {m : Member TypeSpec} (mem : m ∈ t.members)
    (part : PartOf σ m.type) : PartOf σ (.struct t)
  | discriminant {t : UnionType TypeSpec} (part : PartOf σ t.discriminant.type) :
    PartOf σ (.union t)
  | element {t : UnionType TypeSpec} {c : UnionCase TypeSpec} (mem : c ∈ t.cases)
    (part : PartOf σ c.type) : PartOf σ (.union t)
  | sequence {τ : TypeSpec} {bound : Option ConstExpr} (part : PartOf σ τ) :
    PartOf σ (.sequence τ bound)
  | set {τ : TypeSpec} {bound : Option ConstExpr} (part : PartOf σ τ) : PartOf σ (.set τ bound)
  | key {key value : TypeSpec} {bound : Option ConstExpr} (part : PartOf σ key) :
    PartOf σ (.map key value bound)
  | value {key value : TypeSpec} {bound : Option ConstExpr} (part : PartOf σ value) :
    PartOf σ (.map key value bound)

/-- The body of an interface, value, component or home. -/
def DefinitionKind.body {δ : Type} : DefinitionKind δ → List (Export δ)
  | .interface d => d.body
  | .value d => d.body
  | .event d => d.body
  | .component d => d.body
  | .home d => d.body
  | _ => []

/-- Where a type is written. -/
inductive Use
  /-- As a definition, or in a typedef or exception. -/
  | plain
  | const
  | state
  | box
deriving DecidableEq, Repr

/-- The definition, or one inside it, is the type or has the type written in it. -/
inductive Definition.Writes : Definition → Use → TypeSpec → Prop
  | struct {as : List AnnotationUse} {t : StructType TypeSpec} {span : Span} :
    Writes ⟨as, .struct t, span⟩ .plain (.struct t)
  | union {as : List AnnotationUse} {t : UnionType TypeSpec} {span : Span} :
    Writes ⟨as, .union t, span⟩ .plain (.union t)
  | enum {as : List AnnotationUse} {t : EnumType} {span : Span} :
    Writes ⟨as, .enum t, span⟩ .plain (.enum t)
  | bitset {as : List AnnotationUse} {t : BitsetType} {span : Span} :
    Writes ⟨as, .bitset t, span⟩ .plain (.bitset t)
  | bitmask {as : List AnnotationUse} {t : BitmaskType} {span : Span} :
    Writes ⟨as, .bitmask t, span⟩ .plain (.bitmask t)
  | typedef {as : List AnnotationUse} {d : Typedef} {span : Span} :
    Writes ⟨as, .typedef d, span⟩ .plain d.type
  | exception {as : List AnnotationUse} {d : ExceptionDecl} {span : Span} {m : Member TypeSpec}
    (mem : m ∈ d.members) : Writes ⟨as, .exception d, span⟩ .plain m.type
  | const {as : List AnnotationUse} {d : ConstDecl} {span : Span} :
    Writes ⟨as, .const d, span⟩ .const d.type
  | box {as : List AnnotationUse} {d : ValueBox} {span : Span} :
    Writes ⟨as, .valueBox d, span⟩ .box d.type
  | state {as : List AnnotationUse} {kind : DefinitionKind Definition} {span : Span}
    {m : StateMember} (mem : .stateMember m ∈ kind.body) :
    Writes ⟨as, kind, span⟩ .state m.member.type
  | module {as : List AnnotationUse} {m : ModuleDecl Definition} {span : Span} {d : Definition}
    {use : Use} {τ : TypeSpec} (mem : d ∈ m.definitions) (writes : Writes d use τ) :
    Writes ⟨as, .module m, span⟩ use τ
  | nested {as : List AnnotationUse} {kind : DefinitionKind Definition} {span : Span}
    {d : Definition} {use : Use} {τ : TypeSpec} (mem : .definition d ∈ kind.body)
    (writes : Writes d use τ) : Writes ⟨as, kind, span⟩ use τ

/-- Somewhere in the unit a type of the name and kind is written. -/
def Specification.Writes (s : Specification) (use : Use) (name : Ident) (kind : SymbolKind) :
    Prop :=
  ∃ d ∈ s.definitions, ∃ τ, d.Writes use τ ∧
    ∃ σ : TypeSpec, σ.PartOf τ ∧ σ.constructed? = some (name, kind)

/-! Written types are among the declarations that the passes go through. -/

section

variable {σ τ : TypeSpec} {name : Ident} {kind : SymbolKind}

/-- The name and kind of a constructed type that has a layout. -/
def Laid.constructed? : Laid → Option (Ident × SymbolKind)
  | .struct t => some (t.name, .struct)
  | .union t => some (t.name, .union)
  | .enum _ t => some (t.name, .enum)
  | .bitset t => some (t.name, .bitset)
  | .bitmask _ t => some (t.name, .bitmask)
  | _ => none

/-- One of the declarations is a type of the name and kind. -/
def LaidAs (name : Ident) (kind : SymbolKind) (xs : List Laid) : Prop :=
  ∃ x ∈ xs, x.constructed? = some (name, kind)

theorem LaidAs.mono {xs ys : List Laid} (laid : LaidAs name kind xs) (sub : xs ⊆ ys) :
    LaidAs name kind ys := by
  obtain ⟨x, mem, constructed⟩ := laid
  exact ⟨x, sub mem, constructed⟩

theorem Laid.declaration_of_constructed? {x : Laid}
    (constructed : x.constructed? = some (name, kind)) : x.declaration = ⟨name, .defined kind⟩ := by
  cases x <;> cases constructed <;> rfl

theorem laid_subset_memberLaid {ms : List (Member TypeSpec)} {m : Member TypeSpec} (mem : m ∈ ms) :
    m.type.laid ⊆ memberLaid ms := by
  induction ms with
  | nil => cases mem
  | cons first ms ih =>
    obtain ⟨as, type, ds, span⟩ := first
    rw [memberLaid]
    rcases List.mem_cons.mp mem with rfl | mem
    · exact List.subset_append_left _ _
    · exact List.subset_append_of_subset_right _ (ih mem)

theorem laid_subset_caseLaid {cs : List (UnionCase TypeSpec)} {c : UnionCase TypeSpec}
    (mem : c ∈ cs) : c.type.laid ⊆ caseLaid cs := by
  induction cs with
  | nil => cases mem
  | cons first cs ih =>
    obtain ⟨ls, as, type, d, span⟩ := first
    rw [caseLaid]
    rcases List.mem_cons.mp mem with rfl | mem
    · exact List.subset_append_left _ _
    · exact List.subset_append_of_subset_right _ (ih mem)

/-- What is part of a type is laid out with it. -/
theorem TypeSpec.PartOf.laid_subset (part : σ.PartOf τ) : σ.laid ⊆ τ.laid := by
  induction part with
  | self => exact List.Subset.refl _
  | @member t m mem _ ih =>
    obtain ⟨name, base, members, span⟩ := t
    rw [TypeSpec.laid]
    exact List.subset_cons_of_subset _ (List.Subset.trans ih (laid_subset_memberLaid mem))
  | @discriminant t _ ih =>
    obtain ⟨name, ⟨as, type, switch⟩, cases, span⟩ := t
    rw [TypeSpec.laid]
    exact List.subset_cons_of_subset _ (List.subset_append_of_subset_left _ ih)
  | @element t c mem _ ih =>
    obtain ⟨name, ⟨as, type, switch⟩, cases, span⟩ := t
    rw [TypeSpec.laid]
    exact List.subset_cons_of_subset _ (List.subset_append_of_subset_right _
      (List.Subset.trans ih (laid_subset_caseLaid mem)))
  | sequence _ ih => rwa [TypeSpec.laid]
  | set _ ih => rwa [TypeSpec.laid]
  | key _ ih =>
    rw [TypeSpec.laid]
    exact List.subset_append_of_subset_left _ ih
  | value _ ih =>
    rw [TypeSpec.laid]
    exact List.subset_append_of_subset_right _ ih

theorem TypeSpec.laidAs_self (constructed : σ.constructed? = some (name, kind)) :
    LaidAs name kind σ.laid := by
  cases σ with
  | struct t =>
    obtain ⟨_, base, members, span⟩ := t
    cases constructed
    rw [TypeSpec.laid]
    exact ⟨_, List.mem_cons_self, rfl⟩
  | union t =>
    obtain ⟨_, ⟨as, type, switch⟩, cases, span⟩ := t
    cases constructed
    rw [TypeSpec.laid]
    exact ⟨_, List.mem_cons_self, rfl⟩
  | enum t =>
    cases constructed
    rw [TypeSpec.laid]
    exact ⟨_, List.mem_cons_self, rfl⟩
  | bitset t =>
    cases constructed
    rw [TypeSpec.laid]
    exact ⟨_, List.mem_cons_self, rfl⟩
  | bitmask t =>
    cases constructed
    rw [TypeSpec.laid]
    exact ⟨_, List.mem_cons_self, rfl⟩
  | _ => cases constructed

theorem TypeSpec.PartOf.laidAs (part : σ.PartOf τ)
    (constructed : σ.constructed? = some (name, kind)) : LaidAs name kind τ.laid :=
  (TypeSpec.laidAs_self constructed).mono part.laid_subset

/-- Whatever has a layout is declared. -/
theorem LaidAs.declared (laid : LaidAs name kind τ.laid) :
    ⟨name, .defined kind⟩ ∈ τ.declarations := by
  obtain ⟨x, mem, constructed⟩ := laid
  obtain ⟨rest, perm, -⟩ := τ.split_declarations
  rw [← Laid.declaration_of_constructed? constructed]
  refine perm.mem_iff.mpr (List.mem_append_left _ (List.mem_append_left _ ?_))
  exact List.mem_map_of_mem mem

/-! A definition within others. -/

theorem subset_allLaid {ds : List Definition} {d : Definition} (mem : d ∈ ds) :
    d.laid ⊆ allLaid ds ∧ d.stateDeclarations ⊆ allStateDeclarations ds ∧
      d.hidden ⊆ allHidden ds := by
  induction ds with
  | nil => cases mem
  | cons first ds ih =>
    rw [allLaid, allStateDeclarations, allHidden]
    rcases List.mem_cons.mp mem with rfl | mem
    · exact ⟨List.subset_append_left _ _, List.subset_append_left _ _, List.subset_append_left _ _⟩
    · obtain ⟨laid, state, hidden⟩ := ih mem
      exact ⟨List.subset_append_of_subset_right _ laid,
        List.subset_append_of_subset_right _ state, List.subset_append_of_subset_right _ hidden⟩

theorem subset_exportLaid {es : List (Export Definition)} {d : Definition}
    (mem : .definition d ∈ es) :
    d.laid ⊆ exportLaid es ∧ d.stateDeclarations ⊆ exportStateDeclarations es ∧
      d.hidden ⊆ exportHidden es := by
  induction es with
  | nil => cases mem
  | cons first es ih =>
    rcases List.mem_cons.mp mem with rfl | mem
    · rw [exportLaid, exportStateDeclarations, exportHidden]
      exact ⟨List.subset_append_left _ _, List.subset_append_left _ _, List.subset_append_left _ _⟩
    · obtain ⟨laid, state, hidden⟩ := ih mem
      cases first with
      | definition other =>
        rw [exportLaid, exportStateDeclarations, exportHidden]
        exact ⟨List.subset_append_of_subset_right _ laid,
          List.subset_append_of_subset_right _ state, List.subset_append_of_subset_right _ hidden⟩
      | stateMember m =>
        rw [exportLaid, exportStateDeclarations, exportHidden]
        exact ⟨laid, List.subset_append_of_subset_right _ state, hidden⟩
      | _ =>
        rw [exportLaid, exportStateDeclarations, exportHidden]
        exact ⟨laid, state, hidden⟩

theorem subset_exportStateDeclarations {es : List (Export Definition)} {m : StateMember}
    (mem : .stateMember m ∈ es) : m.member.type.declarations ⊆ exportStateDeclarations es := by
  induction es with
  | nil => cases mem
  | cons first es ih =>
    rcases List.mem_cons.mp mem with rfl | later
    · rw [exportStateDeclarations]
      exact List.subset_append_left _ _
    · have inside := ih later
      cases first with
      | definition other =>
        rw [exportStateDeclarations]
        exact List.subset_append_of_subset_right _ inside
      | stateMember m =>
        rw [exportStateDeclarations]
        exact List.subset_append_of_subset_right _ inside
      | _ =>
        rw [exportStateDeclarations]
        exact inside

theorem body_subset (as : List AnnotationUse) (kind : DefinitionKind Definition)
    (body : kind.body ≠ []) :
    exportLaid kind.body ⊆ kindLaid as kind ∧
      exportStateDeclarations kind.body = kindStateDeclarations kind ∧
      exportHidden kind.body = kindHidden kind := by
  cases kind with
  | interface d =>
    obtain ⟨_, _, _, es⟩ := d
    rw [kindLaid, kindStateDeclarations, kindHidden]
    exact ⟨List.subset_cons_self _ _, rfl, rfl⟩
  | value d =>
    obtain ⟨_, _, _, _, _, es⟩ := d
    rw [kindLaid, kindStateDeclarations, kindHidden]
    exact ⟨List.subset_cons_self _ _, rfl, rfl⟩
  | event d =>
    obtain ⟨_, _, _, _, _, es⟩ := d
    rw [kindLaid, kindStateDeclarations, kindHidden]
    exact ⟨List.subset_cons_self _ _, rfl, rfl⟩
  | component d =>
    obtain ⟨_, _, _, es⟩ := d
    rw [kindLaid, kindStateDeclarations, kindHidden]
    exact ⟨List.subset_cons_self _ _, rfl, rfl⟩
  | home d =>
    obtain ⟨_, _, _, _, _, es⟩ := d
    rw [kindLaid, kindStateDeclarations, kindHidden]
    exact ⟨List.subset_cons_self _ _, rfl, rfl⟩
  | _ => exact absurd rfl body

/-- Where the passes find a type of the name and kind, by its use. -/
def Use.Finds (use : Use) (name : Ident) (kind : SymbolKind) (laid : List Laid)
    (state hidden : List Declaration) : Prop :=
  match use with
  | .plain => LaidAs name kind laid
  | .const => ∃ d, Laid.const d ∈ laid ∧ LaidAs name kind d.type.laid
  | .state => ⟨name, .defined kind⟩ ∈ state
  | .box => ⟨name, .defined kind⟩ ∈ hidden

theorem Use.Finds.mono {use : Use} {laid laid' : List Laid}
    {state state' hidden hidden' : List Declaration}
    (finds : use.Finds name kind laid state hidden)
    (sub : laid ⊆ laid' ∧ state ⊆ state' ∧ hidden ⊆ hidden') :
    use.Finds name kind laid' state' hidden' := by
  cases use with
  | plain => exact LaidAs.mono finds sub.1
  | const =>
    obtain ⟨d, mem, laid⟩ := finds
    exact ⟨d, sub.1 mem, laid⟩
  | state => exact sub.2.1 finds
  | box => exact sub.2.2 finds

/-- The passes find all that a definition writes. -/
theorem Definition.Writes.finds {d : Definition} {use : Use} (writes : d.Writes use τ)
    (part : σ.PartOf τ) (constructed : σ.constructed? = some (name, kind)) :
    use.Finds name kind d.laid d.stateDeclarations d.hidden := by
  have laidAs := part.laidAs constructed
  induction writes with
  | struct => exact laidAs
  | union => exact laidAs
  | enum =>
    cases part
    cases constructed
    exact ⟨_, List.mem_cons_self, rfl⟩
  | bitset => exact laidAs
  | bitmask =>
    cases part
    cases constructed
    exact ⟨_, List.mem_cons_self, rfl⟩
  | typedef =>
    rw [Definition.laid, kindLaid]
    exact laidAs.mono (List.subset_append_left _ _)
  | exception mem =>
    rw [Definition.laid, kindLaid]
    exact laidAs.mono (List.subset_cons_of_subset _ (laid_subset_memberLaid mem))
  | @const _ d _ =>
    refine ⟨d, ?_, laidAs⟩
    rw [Definition.laid, kindLaid]
    exact List.mem_cons_self
  | box =>
    show _ ∈ Definition.hidden _
    rw [Definition.hidden, kindHidden]
    exact laidAs.declared
  | @state as kind span m mem =>
    show _ ∈ Definition.stateDeclarations _
    rw [Definition.stateDeclarations, ← (body_subset as kind (List.ne_nil_of_mem mem)).2.1]
    exact subset_exportStateDeclarations mem laidAs.declared
  | module mem _ ih =>
    refine (ih part laidAs).mono ?_
    rw [Definition.laid, Definition.stateDeclarations, Definition.hidden, kindLaid,
      kindStateDeclarations, kindHidden]
    exact subset_allLaid mem
  | @nested as kind span d use τ mem _ ih =>
    refine (ih part laidAs).mono ?_
    obtain ⟨laid, state, hidden⟩ := subset_exportLaid mem
    obtain ⟨body, bodyState, bodyHidden⟩ := body_subset as kind (List.ne_nil_of_mem mem)
    rw [Definition.laid, Definition.stateDeclarations, Definition.hidden, ← bodyState, ← bodyHidden]
    exact ⟨List.Subset.trans laid body, state, hidden⟩

theorem Specification.Writes.finds {s : Specification} {use : Use}
    (writes : s.Writes use name kind) :
    use.Finds name kind s.laid s.stateDeclarations s.hidden := by
  obtain ⟨d, mem, τ, writes, σ, part, constructed⟩ := writes
  exact (writes.finds part constructed).mono (subset_allLaid mem)

end

/-- The kind of symbol that a type with the layout has. -/
def EntryKind.constructed? : EntryKind → Option SymbolKind
  | .struct _ => some .struct
  | .union _ => some .union
  | .enum _ => some .enum
  | .bitset _ => some .bitset
  | .bitmask _ => some .bitmask
  | _ => none

theorem Layout.Describes.constructed? {t : SymbolTable} {x : Laid} {layout : EntryKind}
    {name : Ident} {kind : SymbolKind} (describes : Describes t x layout)
    (constructed : x.constructed? = some (name, kind)) : layout.constructed? = some kind := by
  cases x with
  | bitset b =>
    obtain ⟨offset, rfl⟩ := describes
    cases constructed
    rfl
  | struct _ => cases describes; cases constructed; rfl
  | union _ => cases describes; cases constructed; rfl
  | enum _ _ => cases describes; cases constructed; rfl
  | bitmask _ _ => cases describes; cases constructed; rfl
  | _ => cases constructed

theorem Specification.Writes.isType {s : Specification} {use : Use} {name : Ident}
    {kind : SymbolKind} (writes : s.Writes use name kind) : kind.isType = true := by
  obtain ⟨-, -, -, -, σ, -, constructed⟩ := writes
  cases σ <;> cases constructed <;> rfl

/-- A type that admits constants defines nothing, unless it is an enum that has a symbol. -/
theorem definedAt?_isSome_of_constType {t : SymbolTable} {fuel : Nat} {τ : TypeSpec}
    {type : ConstType} (constants : t.constTypeWithin? fuel τ = some type) {name : Ident}
    {kind : SymbolKind} (laid : LaidAs name kind τ.laid) :
    (t.definedAt? name.span).isSome = true := by
  obtain ⟨x, mem, constructed⟩ := laid
  cases fuel with
  | zero => cases constants
  | succ fuel =>
    cases τ with
    | enum e =>
      rw [TypeSpec.laid, List.mem_singleton] at mem
      subst mem
      cases constructed
      rw [SymbolTable.constTypeWithin?] at constants
      obtain ⟨id, found, -⟩ := Option.map_eq_some_iff.mp constants
      rw [found]
      rfl
    | primitive _ => simp [TypeSpec.laid] at mem
    | named _ => simp [TypeSpec.laid] at mem
    | string _ => simp [TypeSpec.laid] at mem
    | wstring _ => simp [TypeSpec.laid] at mem
    | fixed _ => simp [TypeSpec.laid] at mem
    | _ => cases constants

/-- The symbol that the identifier defines has its name and the kind. -/
structure SymbolOf (t : SymbolTable) (name : Ident) (kind : SymbolKind) (id : SymbolId) :
    Prop where
  place : t.definedAt? name.span = some id
  name_eq : (t.symbol id).name = name.name
  kind_eq : t.kind id = kind

/-- The symbol has an entry of the kind, which is found under its qualified name. -/
structure HasEntry (t : SymbolTable) (m : TypeModel) (kind : SymbolKind) (id : SymbolId)
    (e : Entry) : Prop where
  found : m.get? id = some e
  kind_eq : e.kind.constructed? = some kind
  name_eq : e.name = t.qualifiedName id
  named : m.named? (t.qualifiedName id) = some e

/-- What is known of a type with the name and kind that is written with the use. -/
def Use.Known (use : Use) (t : SymbolTable) (m : TypeModel) (name : Ident) (kind : SymbolKind) :
    Prop :=
  match use with
  | .plain => ∃ id e, SymbolOf t name kind id ∧ HasEntry t m kind id e
  | .state => ∃ id, SymbolOf t name kind id ∧ m.get? id = none
  | .box => t.definedAt? name.span = none
  -- constants are not of types that are written in place
  | .const => False

namespace Clean

open Binding Layout

variable {parsed s : Specification} {t : SymbolTable} {name : Ident} {kind : SymbolKind}

theorem not_laidAs_of_const (clean : Clean parsed s t) {d : ConstDecl}
    (mem : Laid.const d ∈ s.laid) : ¬ LaidAs name kind d.type.laid := by
  intro laid
  obtain ⟨y, read, bound⟩ := exists_of_forall₂ clean.bound _ mem
  cases y with
  | const r =>
    obtain ⟨declarations, constant, -, constants, -⟩ := bound
    obtain ⟨id, place⟩ :=
      Option.isSome_iff_exists.mp (definedAt?_isSome_of_constType constants laid)
    have inside := clean.entered.places _ _ place
    rw [clean.declarations] at inside
    refine clean.placed.unshared r read ⟨name, .defined kind⟩ ?_ inside
    rw [← declarations]
    exact laid.declared
  | _ => exact bound.elim

/-- A declared type has its symbol. -/
theorem symbolOf (clean : Clean parsed s t) (called : Called (· ∈ s.declarations.map (·.name)) t)
    (mem : ⟨name, .defined kind⟩ ∈ s.declarations) : ∃ id, SymbolOf t name kind id := by
  obtain ⟨id, defines⟩ := clean.entered.defined name kind mem
  exact ⟨id, defines.place, called.name_of_definedAt? clean.apart mem defines.place,
    defines.kind_eq⟩

theorem known (clean : Clean parsed s t) (rooted : Rooted t)
    (called : Called (· ∈ s.declarations.map (·.name)) t) {use : Use}
    (writes : s.Writes use name kind) : use.Known t (buildModel s t) name kind := by
  have finds := writes.finds
  cases use with
  | plain =>
    obtain ⟨x, mem, constructed⟩ := finds
    have declaration := Laid.declaration_of_constructed? constructed
    obtain ⟨id, symbol⟩ := clean.symbolOf called (declaration ▸ clean.declared mem)
    have same : x.name = name := congrArg Declaration.name declaration
    obtain ⟨e, found, describes⟩ := clean.get?_of_definedAt? mem (same ▸ symbol.place)
    have inside := TypeModel.mem_of_get? found
    have named := name_of_mem inside
    rw [TypeModel.id_of_get? found] at named
    refine ⟨id, e, symbol, found, describes.constructed? constructed, named, ?_⟩
    refine TypeModel.named?_eq_some inside
      (fun other mem' same => clean.eq_of_name rooted inside mem' same) ?_
    have used := clean.lt_size_of_mem inside
    rw [TypeModel.id_of_get? found] at used
    rw [named, SymbolTable.qualifiedName_eq, Text.dropColons_intercalate (rooted.words_path used),
      String.ofList_toList]
  | state =>
    obtain ⟨rest, perm, -⟩ := s.split_declarations
    have declared : ⟨name, .defined kind⟩ ∈ s.declarations :=
      perm.mem_iff.mpr (List.mem_append_left _ (List.mem_append_right _ finds))
    obtain ⟨id, symbol⟩ := clean.symbolOf called declared
    have type : (t.kind id).isType = true := symbol.kind_eq ▸ writes.isType
    refine ⟨id, symbol, Option.not_isSome_iff_eq_none.mp fun known => ?_⟩
    exact (clean.get?_isSome_iff type).mp known ⟨name, kind, finds, symbol.place⟩
  | box =>
    refine Option.eq_none_iff_forall_ne_some.mpr fun id place => ?_
    have inside := clean.entered.places _ _ place
    rw [clean.declarations] at inside
    refine clean.placed.hidden ⟨name, .defined kind⟩ ?_ inside
    rw [← clean.hidden]
    exact finds
  | const =>
    obtain ⟨d, mem, laid⟩ := finds
    exact clean.not_laidAs_of_const mem laid

end Clean

namespace Document

/-- The symbols of a document without errors have the names of its declarations. -/
theorem called_of_unfailed {options : ParseOptions} {text : String}
    (ok : (ofText options text).hasErrors = false) :
    Called (· ∈ (ofText options text).specification.declarations.map (·.name))
      (ofText options text).symbols := by
  have placed := wellPlaced_parseText options.maxNesting text
  have unfailed := unfailed_of_severity (severity_ne_error ok)
  have entered := entered_buildScopes _ placed.apart
  obtain ⟨same, -⟩ := bound_of_bindUnit entered placed.apart unfailed.errors
  rw [(clean_of_unfailed ok).declarations]
  exact (called_buildScopes _).congr same

/-- A type that is written as a definition, or in place in a typedef or an exception, at any depth,
has a symbol of its name and kind, and an entry of its kind under its qualified name. One in a state
member has only the symbol, and one in a value box has neither. No constant has such a type. -/
theorem written_known (options : ParseOptions) (text : String)
    (ok : (ofText options text).hasErrors = false) :
    ∀ use name kind, (ofText options text).specification.Writes use name kind →
      use.Known (ofText options text).symbols (ofText options text).model name kind :=
  fun _ _ _ writes =>
    (clean_of_unfailed ok).known (rooted_of_unfailed ok) (called_of_unfailed ok) writes

/-- Three enums that are written in place: in a sequence, in a state member and in a value box. -/
def enumsText : String :=
  "typedef sequence<enum G { C }> L; valuetype V { public enum E { A } e; }; " ++
    "valuetype W enum F { B };"

theorem written_known_of_enums :
    (ofText {} enumsText).hasErrors = false ∧
      (∃ id e, SymbolOf (ofText {} enumsText).symbols ⟨"G", ⟨22, 1, 1, 23⟩⟩ .enum id ∧
        HasEntry (ofText {} enumsText).symbols (ofText {} enumsText).model .enum id e) ∧
      (∃ id, SymbolOf (ofText {} enumsText).symbols ⟨"E", ⟨60, 1, 1, 61⟩⟩ .enum id ∧
        (ofText {} enumsText).model.get? id = none) ∧
      (ofText {} enumsText).symbols.definedAt? ⟨91, 1, 1, 92⟩ = none := by
  have ok : (ofText {} enumsText).hasErrors = false := by cbv
  have definitions : (ofText {} enumsText).specification.definitions =
      [⟨[], .typedef ⟨.sequence (.enum ⟨⟨"G", ⟨22, 1, 1, 23⟩⟩, [⟨[], ⟨"C", ⟨26, 1, 1, 27⟩⟩⟩],
          ⟨17, 12, 1, 18⟩⟩) none, [⟨⟨"L", ⟨31, 1, 1, 32⟩⟩, []⟩]⟩, ⟨0, 33, 1, 1⟩⟩,
        ⟨[], .value ⟨⟨"V", ⟨44, 1, 1, 45⟩⟩, none, false, [], [], [.stateMember ⟨true, ⟨[],
          .enum ⟨⟨"E", ⟨60, 1, 1, 61⟩⟩, [⟨[], ⟨"A", ⟨64, 1, 1, 65⟩⟩⟩], ⟨55, 12, 1, 56⟩⟩,
          [⟨⟨"e", ⟨68, 1, 1, 69⟩⟩, []⟩], ⟨48, 21, 1, 49⟩⟩⟩]⟩, ⟨34, 39, 1, 35⟩⟩,
        ⟨[], .valueBox ⟨⟨"W", ⟨84, 1, 1, 85⟩⟩, .enum ⟨⟨"F", ⟨91, 1, 1, 92⟩⟩,
          [⟨[], ⟨"B", ⟨95, 1, 1, 96⟩⟩⟩], ⟨86, 12, 1, 87⟩⟩⟩, ⟨74, 25, 1, 75⟩⟩] := by cbv
  have known := written_known {} enumsText ok
  simp only [Specification.Writes, definitions] at known
  refine ⟨ok, ?_, ?_, ?_⟩
  · exact known .plain _ .enum ⟨_, .head _, _, .typedef, _, .sequence .self, rfl⟩
  · exact known .state _ .enum ⟨_, .tail _ (.head _), _, .state (.head _), _, .self, rfl⟩
  · exact known .box ⟨"F", ⟨91, 1, 1, 92⟩⟩ .enum
      ⟨_, .tail _ (.tail _ (.head _)), _, .box, _, .self, rfl⟩

end Document

end Idl
