import Idl.Proofs.Layout.Laid

/-!
Every type that a unit declares has a layout, or it is written in place in a state member, and
never both. Main statements: `Specification.split_declarations` and `Specification.typedef_laid`.
-/

set_option autoImplicit false

namespace Idl

/-- The declarations are those of `laid` and `state`, and others that define no type. -/
def Split (ds : List Declaration) (laid : List Laid) (state : List Declaration) : Prop :=
  ∃ rest, ds.Perm (laid.map Laid.declaration ++ state ++ rest) ∧
    ∀ d ∈ rest, ∀ kind, d.role = .defined kind → kind.isType = false

namespace Split

variable {ds es state other : List Declaration} {laid more : List Laid}

theorem nil : Split [] [] [] := ⟨[], by simp, by simp⟩

theorem append (split : Split ds laid state) (next : Split es more other) :
    Split (ds ++ es) (laid ++ more) (state ++ other) := by
  obtain ⟨rest, perm, untyped⟩ := split
  obtain ⟨rest', perm', untyped'⟩ := next
  refine ⟨rest ++ rest', ?_, fun d mem => (List.mem_append.mp mem).elim (untyped d) (untyped' d)⟩
  rw [List.perm_iff_count] at *
  intro d
  have count := perm d
  have count' := perm' d
  simp only [List.map_append, List.count_append] at *
  omega

/-- A declaration of its own layout. -/
theorem cons (x : Laid) (split : Split ds laid state) :
    Split (x.declaration :: ds) (x :: laid) state := by
  obtain ⟨rest, perm, untyped⟩ := split
  exact ⟨rest, perm.cons _, untyped⟩

theorem single (x : Laid) : Split [x.declaration] [x] [] := nil.cons x

/-- Declarations that define no type need no layout. -/
theorem untyped (untyped : ∀ d ∈ ds, ∀ kind, d.role = .defined kind → kind.isType = false) :
    Split ds [] [] :=
  ⟨ds, by simp, untyped⟩

/-- Declarations in a state member get no layout. -/
theorem unlaid (ds : List Declaration) : Split ds [] ds := ⟨[], by simp, by simp⟩

theorem cons_untyped {d : Declaration} (plain : ∀ kind, d.role ≠ .defined kind)
    (split : Split ds laid state) : Split (d :: ds) laid state := by
  have first : Split [d] [] [] := untyped fun e mem kind role => by
    rw [List.mem_singleton] at mem
    exact absurd (mem ▸ role) (plain kind)
  exact first.append split

theorem map {α : Type} (f : α → Laid) (xs : List α) :
    Split (xs.map fun x => (f x).declaration) (xs.map f) [] := by
  induction xs with
  | nil => exact nil
  | cons x xs ih => exact ih.cons (f x)

/-- The names that an owner lists define no types. -/
theorem listing (x : Laid) (values : List Enumerator) :
    Split (Idl.listing x.name x.kind values) [x] [] := by
  have listed : Split (values.map fun v => ⟨v.name, .listed x.name⟩) [] [] :=
    untyped fun d mem kind role => by
      obtain ⟨v, -, rfl⟩ := List.mem_map.mp mem
      cases role
  exact listed.cons x

end Split

mutual

theorem TypeSpec.split_declarations : (τ : TypeSpec) → Split τ.declarations τ.laid []
  | .struct ⟨name, base, fields, span⟩ => by
    rw [TypeSpec.declarations, TypeSpec.laid]
    exact (split_memberDeclarations fields).cons (.struct ⟨name, base, fields, span⟩)
  | .union ⟨name, ⟨as, type, switchSpan⟩, cases, span⟩ => by
    rw [TypeSpec.declarations, TypeSpec.laid]
    exact (type.split_declarations.append (split_caseDeclarations cases)).cons
      (.union ⟨name, ⟨as, type, switchSpan⟩, cases, span⟩)
  | .enum t => by
    rw [TypeSpec.declarations, TypeSpec.laid]
    exact Split.listing (.enum [] t) t.enumerators
  | .bitset t => by
    rw [TypeSpec.declarations, TypeSpec.laid]
    exact Split.single (.bitset t)
  | .bitmask t => by
    rw [TypeSpec.declarations, TypeSpec.laid]
    exact Split.listing (.bitmask [] t) t.values
  | .sequence element _ => by
    rw [TypeSpec.declarations, TypeSpec.laid]
    exact element.split_declarations
  | .set element _ => by
    rw [TypeSpec.declarations, TypeSpec.laid]
    exact element.split_declarations
  | .map key value _ => by
    rw [TypeSpec.declarations, TypeSpec.laid]
    exact key.split_declarations.append value.split_declarations
  | .primitive _ => by rw [TypeSpec.declarations, TypeSpec.laid]; exact Split.nil
  | .named _ => by rw [TypeSpec.declarations, TypeSpec.laid]; exact Split.nil
  | .string _ => by rw [TypeSpec.declarations, TypeSpec.laid]; exact Split.nil
  | .wstring _ => by rw [TypeSpec.declarations, TypeSpec.laid]; exact Split.nil
  | .fixed _ => by rw [TypeSpec.declarations, TypeSpec.laid]; exact Split.nil

theorem split_memberDeclarations : (ms : List (Member TypeSpec)) →
    Split (memberDeclarations ms) (memberLaid ms) []
  | [] => by rw [memberDeclarations, memberLaid]; exact Split.nil
  | ⟨_, type, _, _⟩ :: rest => by
    rw [memberDeclarations, memberLaid]
    exact type.split_declarations.append (split_memberDeclarations rest)

theorem split_caseDeclarations : (cs : List (UnionCase TypeSpec)) →
    Split (caseDeclarations cs) (caseLaid cs) []
  | [] => by rw [caseDeclarations, caseLaid]; exact Split.nil
  | ⟨_, _, type, _, _⟩ :: rest => by
    rw [caseDeclarations, caseLaid]
    exact type.split_declarations.append (split_caseDeclarations rest)

end

mutual

theorem Definition.split_declarations : (d : Definition) →
    Split d.declarations d.laid d.stateDeclarations
  | ⟨as, kind, _⟩ => by
    rw [Definition.declarations, Definition.laid, Definition.stateDeclarations]
    exact split_kindDeclarations as kind

theorem split_kindDeclarations (as : List AnnotationUse) : (kind : DefinitionKind Definition) →
    Split (kindDeclarations kind) (kindLaid as kind) (kindStateDeclarations kind)
  | .module ⟨name, ds⟩ => by
    rw [kindDeclarations, kindLaid, kindStateDeclarations]
    exact (split_allDeclarations ds).cons_untyped fun _ role => by cases role
  | .struct t => by
    rw [kindDeclarations, kindLaid, kindStateDeclarations]
    exact TypeSpec.split_declarations _
  | .union t => by
    rw [kindDeclarations, kindLaid, kindStateDeclarations]
    exact TypeSpec.split_declarations _
  | .enum t => by
    rw [kindDeclarations, kindLaid, kindStateDeclarations]
    exact Split.listing (.enum as t) t.enumerators
  | .bitset t => by
    rw [kindDeclarations, kindLaid, kindStateDeclarations]
    exact Split.single (.bitset t)
  | .bitmask t => by
    rw [kindDeclarations, kindLaid, kindStateDeclarations]
    exact Split.listing (.bitmask as t) t.values
  | .typedef d => by
    rw [kindDeclarations, kindLaid, kindStateDeclarations]
    exact d.type.split_declarations.append (Split.map (Laid.typedef d.type) d.declarators)
  | .const d => by
    rw [kindDeclarations, kindLaid, kindStateDeclarations]
    exact Split.single (.const d)
  | .exception d => by
    rw [kindDeclarations, kindLaid, kindStateDeclarations]
    exact (split_memberDeclarations d.members).cons (.exception d)
  | .native name => by
    rw [kindDeclarations, kindLaid, kindStateDeclarations]
    exact Split.single (.native name)
  | .forward d => by
    rw [kindDeclarations, kindLaid, kindStateDeclarations]
    exact Split.nil.cons_untyped fun _ role => by cases role
  | .interface ⟨name, _, _, body⟩ => by
    rw [kindDeclarations, kindLaid, kindStateDeclarations]
    exact (split_exportDeclarations body).cons (.closed name .interface)
  | .value ⟨name, _, _, _, _, body⟩ => by
    rw [kindDeclarations, kindLaid, kindStateDeclarations]
    exact (split_exportDeclarations body).cons (.closed name .value)
  | .event ⟨name, _, _, _, _, body⟩ => by
    rw [kindDeclarations, kindLaid, kindStateDeclarations]
    exact (split_exportDeclarations body).cons (.closed name .event)
  | .valueBox d => by
    rw [kindDeclarations, kindLaid, kindStateDeclarations]
    exact Split.single (.closed d.name .valueBox)
  | .component ⟨name, _, _, body⟩ => by
    rw [kindDeclarations, kindLaid, kindStateDeclarations]
    exact (split_exportDeclarations body).cons (.closed name .component)
  | .home ⟨name, _, _, _, _, body⟩ => by
    rw [kindDeclarations, kindLaid, kindStateDeclarations]
    exact (split_exportDeclarations body).cons (.closed name .home)
  | .typeId _ => by rw [kindDeclarations, kindLaid, kindStateDeclarations]; exact Split.nil
  | .typePrefix _ => by rw [kindDeclarations, kindLaid, kindStateDeclarations]; exact Split.nil
  | .annotationDecl _ => by
    rw [kindDeclarations, kindLaid, kindStateDeclarations]
    exact Split.nil

theorem split_allDeclarations : (ds : List Definition) →
    Split (allDeclarations ds) (allLaid ds) (allStateDeclarations ds)
  | [] => by rw [allDeclarations, allLaid, allStateDeclarations]; exact Split.nil
  | d :: ds => by
    rw [allDeclarations, allLaid, allStateDeclarations]
    exact d.split_declarations.append (split_allDeclarations ds)

theorem split_exportDeclarations : (es : List (Export Definition)) →
    Split (exportDeclarations es) (exportLaid es) (exportStateDeclarations es)
  | [] => by rw [exportDeclarations, exportLaid, exportStateDeclarations]; exact Split.nil
  | .definition d :: rest => by
    rw [exportDeclarations, exportLaid, exportStateDeclarations]
    exact d.split_declarations.append (split_exportDeclarations rest)
  | .stateMember m :: rest => by
    rw [exportDeclarations, exportLaid, exportStateDeclarations]
    exact (Split.unlaid _).append (split_exportDeclarations rest)
  | .attribute _ :: rest => by
    rw [exportDeclarations, exportLaid, exportStateDeclarations]
    exact split_exportDeclarations rest
  | .operation _ :: rest => by
    rw [exportDeclarations, exportLaid, exportStateDeclarations]
    exact split_exportDeclarations rest
  | .initializer _ :: rest => by
    rw [exportDeclarations, exportLaid, exportStateDeclarations]
    exact split_exportDeclarations rest
  | .port _ :: rest => by
    rw [exportDeclarations, exportLaid, exportStateDeclarations]
    exact split_exportDeclarations rest

end

theorem Specification.split_declarations (s : Specification) :
    Split s.declarations s.laid s.stateDeclarations :=
  split_allDeclarations s.definitions

/-! Each typedef has a layout. -/

section

variable {name : Ident}

theorem not_typedef_listing {owner : Ident} {kind : SymbolKind} {values : List Enumerator}
    (other : kind ≠ .typedef) : ⟨name, .defined .typedef⟩ ∉ listing owner kind values := by
  simp [listing, other.symm]

mutual

theorem TypeSpec.not_typedef : (τ : TypeSpec) → ⟨name, .defined .typedef⟩ ∉ τ.declarations
  | .struct ⟨_, _, fields, _⟩ => by
    simp [TypeSpec.declarations, not_typedef_memberDeclarations fields]
  | .union ⟨_, ⟨_, type, _⟩, cases, _⟩ => by
    simp [TypeSpec.declarations, type.not_typedef, not_typedef_caseDeclarations cases]
  | .enum _ => by
    rw [TypeSpec.declarations]
    exact not_typedef_listing (by decide)
  | .bitset _ => by simp [TypeSpec.declarations]
  | .bitmask _ => by
    rw [TypeSpec.declarations]
    exact not_typedef_listing (by decide)
  | .sequence element _ => by
    rw [TypeSpec.declarations]
    exact element.not_typedef
  | .set element _ => by
    rw [TypeSpec.declarations]
    exact element.not_typedef
  | .map key value _ => by simp [TypeSpec.declarations, key.not_typedef, value.not_typedef]
  | .primitive _ => by simp [TypeSpec.declarations]
  | .named _ => by simp [TypeSpec.declarations]
  | .string _ => by simp [TypeSpec.declarations]
  | .wstring _ => by simp [TypeSpec.declarations]
  | .fixed _ => by simp [TypeSpec.declarations]

theorem not_typedef_memberDeclarations : (ms : List (Member TypeSpec)) →
    ⟨name, .defined .typedef⟩ ∉ memberDeclarations ms
  | [] => by simp [memberDeclarations]
  | ⟨_, type, _, _⟩ :: rest => by
    simp [memberDeclarations, type.not_typedef, not_typedef_memberDeclarations rest]

theorem not_typedef_caseDeclarations : (cs : List (UnionCase TypeSpec)) →
    ⟨name, .defined .typedef⟩ ∉ caseDeclarations cs
  | [] => by simp [caseDeclarations]
  | ⟨_, _, type, _, _⟩ :: rest => by
    simp [caseDeclarations, type.not_typedef, not_typedef_caseDeclarations rest]

end

/-- The typedef is among the declarations. -/
def LaidTypedef (name : Ident) (xs : List Laid) : Prop :=
  ∃ type d, Laid.typedef type d ∈ xs ∧ d.name = name

theorem LaidTypedef.mono {xs ys : List Laid} (sub : xs ⊆ ys) (laid : LaidTypedef name xs) :
    LaidTypedef name ys := by
  obtain ⟨type, d, mem, same⟩ := laid
  exact ⟨type, d, sub mem, same⟩

theorem Typedef.typedef_laid (d : Typedef) (mem : ⟨name, .defined .typedef⟩ ∈ d.declarations) :
    LaidTypedef name (d.type.laid ++ d.declarators.map (.typedef d.type)) := by
  rcases List.mem_append.mp mem with mem | mem
  · exact absurd mem d.type.not_typedef
  · obtain ⟨declarator, inside, same⟩ := List.mem_map.mp mem
    refine ⟨d.type, declarator, List.mem_append_right _ (List.mem_map_of_mem inside), ?_⟩
    exact congrArg Declaration.name same

mutual

theorem Definition.typedef_laid : (d : Definition) →
    ⟨name, .defined .typedef⟩ ∈ d.declarations → LaidTypedef name d.laid
  | ⟨as, kind, _⟩, mem => by
    rw [Definition.declarations] at mem
    rw [Definition.laid]
    exact typedef_kindLaid as kind mem

theorem typedef_kindLaid (as : List AnnotationUse) : (kind : DefinitionKind Definition) →
    ⟨name, .defined .typedef⟩ ∈ kindDeclarations kind → LaidTypedef name (kindLaid as kind)
  | .module ⟨_, ds⟩, mem => by
    rw [kindDeclarations, List.mem_cons] at mem
    rw [kindLaid]
    exact typedef_allLaid ds (mem.resolve_left (by simp))
  | .struct t, mem => absurd mem (TypeSpec.struct t).not_typedef
  | .union t, mem => absurd mem (TypeSpec.union t).not_typedef
  | .enum _, mem => absurd mem (not_typedef_listing (by decide))
  | .bitset _, mem => by simp [kindDeclarations] at mem
  | .bitmask _, mem => absurd mem (not_typedef_listing (by decide))
  | .typedef d, mem => by
    rw [kindLaid]
    exact d.typedef_laid mem
  | .const _, mem => by simp [kindDeclarations] at mem
  | .exception d, mem => by
    simp [kindDeclarations, not_typedef_memberDeclarations d.members] at mem
  | .native _, mem => by simp [kindDeclarations] at mem
  | .forward _, mem => by simp [kindDeclarations] at mem
  | .interface ⟨_, _, _, body⟩, mem => by
    rw [kindDeclarations, List.mem_cons] at mem
    rw [kindLaid]
    exact (typedef_exportLaid body (mem.resolve_left (by simp))).mono (List.subset_cons_self _ _)
  | .value ⟨_, _, _, _, _, body⟩, mem => by
    rw [kindDeclarations, List.mem_cons] at mem
    rw [kindLaid]
    exact (typedef_exportLaid body (mem.resolve_left (by simp))).mono (List.subset_cons_self _ _)
  | .event ⟨_, _, _, _, _, body⟩, mem => by
    rw [kindDeclarations, List.mem_cons] at mem
    rw [kindLaid]
    exact (typedef_exportLaid body (mem.resolve_left (by simp))).mono (List.subset_cons_self _ _)
  | .component ⟨_, _, _, body⟩, mem => by
    rw [kindDeclarations, List.mem_cons] at mem
    rw [kindLaid]
    exact (typedef_exportLaid body (mem.resolve_left (by simp))).mono (List.subset_cons_self _ _)
  | .home ⟨_, _, _, _, _, body⟩, mem => by
    rw [kindDeclarations, List.mem_cons] at mem
    rw [kindLaid]
    exact (typedef_exportLaid body (mem.resolve_left (by simp))).mono (List.subset_cons_self _ _)
  | .valueBox _, mem => by simp [kindDeclarations] at mem
  | .typeId _, mem => by simp [kindDeclarations] at mem
  | .typePrefix _, mem => by simp [kindDeclarations] at mem
  | .annotationDecl _, mem => by simp [kindDeclarations] at mem

theorem typedef_allLaid : (ds : List Definition) →
    ⟨name, .defined .typedef⟩ ∈ allDeclarations ds → LaidTypedef name (allLaid ds)
  | [], mem => by simp [allDeclarations] at mem
  | d :: ds, mem => by
    rw [allDeclarations, List.mem_append] at mem
    rw [allLaid]
    rcases mem with mem | mem
    · exact (d.typedef_laid mem).mono (List.subset_append_left _ _)
    · exact (typedef_allLaid ds mem).mono (List.subset_append_right _ _)

theorem typedef_exportLaid : (es : List (Export Definition)) →
    ⟨name, .defined .typedef⟩ ∈ exportDeclarations es → LaidTypedef name (exportLaid es)
  | [], mem => by simp [exportDeclarations] at mem
  | .definition d :: rest, mem => by
    rw [exportDeclarations, List.mem_append] at mem
    rw [exportLaid]
    rcases mem with mem | mem
    · exact (d.typedef_laid mem).mono (List.subset_append_left _ _)
    · exact (typedef_exportLaid rest mem).mono (List.subset_append_right _ _)
  | .stateMember m :: rest, mem => by
    rw [exportDeclarations, List.mem_append] at mem
    rw [exportLaid]
    exact typedef_exportLaid rest (mem.resolve_left m.member.type.not_typedef)
  | .attribute _ :: rest, mem => by
    rw [exportDeclarations] at mem
    rw [exportLaid]
    exact typedef_exportLaid rest mem
  | .operation _ :: rest, mem => by
    rw [exportDeclarations] at mem
    rw [exportLaid]
    exact typedef_exportLaid rest mem
  | .initializer _ :: rest, mem => by
    rw [exportDeclarations] at mem
    rw [exportLaid]
    exact typedef_exportLaid rest mem
  | .port _ :: rest, mem => by
    rw [exportDeclarations] at mem
    rw [exportLaid]
    exact typedef_exportLaid rest mem

end

theorem Specification.typedef_laid (s : Specification)
    (mem : ⟨name, .defined .typedef⟩ ∈ s.declarations) : LaidTypedef name s.laid :=
  typedef_allLaid s.definitions mem

end

end Idl
