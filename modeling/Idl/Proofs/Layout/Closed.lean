import Idl.Proofs.Layout.Union

/-!
The references in the model of a document without errors. Whatever an entry refers to is a type,
and it has an entry unless a state member defines it in place.
-/

set_option autoImplicit false

namespace Idl

open Binding Layout Rules

/-! What refers to symbols. -/

/-- The symbols that a type refers to, at any depth. -/
def LayoutType.ids : LayoutType → List SymbolId
  | .primitive _ => []
  | .string _ => []
  | .wstring _ => []
  | .fixed _ _ => []
  | .sequence element _ => element.ids
  | .set element _ => element.ids
  | .map key value _ => key.ids ++ value.ids
  | .named id => [id]
  | .unresolved _ => []

/-- The enum of an enumerator. -/
def ConstValue.ids : ConstValue → List SymbolId
  | .enumerator enum _ _ => [enum]
  | _ => []

/-- The enum that values of the type are enumerators of. -/
def ConstType.ids : ConstType → List SymbolId
  | .enum id => [id]
  | _ => []

def StructLayout.ids (s : StructLayout) : List SymbolId :=
  s.base.toList ++ s.fields.flatMap (·.type.ids)

def UnionLayout.ids (u : UnionLayout) : List SymbolId :=
  u.discriminant.ids ++ u.cases.flatMap fun c => c.labels.flatMap (·.ids) ++ c.field.type.ids

/-- The symbols that occur in an entry. -/
def EntryKind.ids : EntryKind → List SymbolId
  | .struct s => s.ids
  | .union u => u.ids
  | .enum _ => []
  | .bitmask _ => []
  | .bitset s => s.base.toList
  | .typedef a => a.type.ids
  | .const c => c.type.ids ++ c.value.ids
  | .exception s => s.ids
  | .native => []
  | .sealed _ => []

/-- The symbol is a type that a state member defines in place. -/
def StateDefined (s : Specification) (t : SymbolTable) (id : SymbolId) : Prop :=
  ∃ name kind, ⟨name, .defined kind⟩ ∈ s.stateDeclarations ∧ t.definedAt? name.span = some id

/-! Only types are referred to. -/

variable {t : SymbolTable}

/-- All of the symbols are types. -/
def AllTypes (t : SymbolTable) (ids : List SymbolId) : Prop := ∀ id ∈ ids, (t.kind id).isType = true

@[simp] theorem allTypes_append (xs ys : List SymbolId) :
    AllTypes t (xs ++ ys) ↔ AllTypes t xs ∧ AllTypes t ys := by
  simp only [AllTypes, List.mem_append]
  exact ⟨fun all => ⟨fun id mem => all id (.inl mem), fun id mem => all id (.inr mem)⟩,
    fun all id mem => mem.elim (all.1 id) (all.2 id)⟩

theorem allTypes_flatMap {α : Type} {f : α → List SymbolId} {xs : List α}
    (all : ∀ x ∈ xs, AllTypes t (f x)) : AllTypes t (xs.flatMap f) := by
  intro id mem
  obtain ⟨x, inside, mem⟩ := List.mem_flatMap.mp mem
  exact all x inside id mem

theorem allTypes_reference {ds : List Declaration} (settled : AllSettled t ds) {name : Ident}
    {kind : SymbolKind} (declared : ⟨name, .defined kind⟩ ∈ ds) (type : kind.isType = true) :
    AllTypes t (reference name (t.settledAt? name)).ids := by
  obtain ⟨id, place, found⟩ := settled name kind declared
  rw [place]
  intro other mem
  rw [List.mem_singleton.mp mem, found]
  exact type

theorem allTypes_typeOf : (τ : TypeSpec) → Settled t τ → AllSettled t τ.declarations →
    AllTypes t (typeOf t τ).ids
  | .primitive _, _, _ => fun _ mem => by cases mem
  | .named type, settled, _ => by
    obtain ⟨id, target, type⟩ := settled
    rw [typeOf, target]
    intro other mem
    rw [List.mem_singleton.mp mem]
    exact type
  | .sequence element _, settled, known => allTypes_typeOf element settled.1 known
  | .set element _, settled, known => allTypes_typeOf element settled.1 known
  | .map key value _, settled, known => by
    rw [TypeSpec.declarations] at known
    rw [typeOf, LayoutType.ids, allTypes_append]
    exact ⟨allTypes_typeOf key settled.1 (known.mono (List.subset_append_left _ _)),
      allTypes_typeOf value settled.2.1 (known.mono (List.subset_append_right _ _))⟩
  | .string _, _, _ => fun _ mem => by cases mem
  | .wstring _, _, _ => fun _ mem => by cases mem
  | .fixed none, _, _ => fun _ mem => by cases mem
  | .fixed (some (_, _)), _, _ => fun _ mem => by cases mem
  | .struct ⟨_, _, _, _⟩, _, known =>
    allTypes_reference known (by rw [TypeSpec.declarations]; exact List.mem_cons_self) rfl
  | .union ⟨_, ⟨_, _, _⟩, _, _⟩, _, known =>
    allTypes_reference known (by rw [TypeSpec.declarations]; exact List.mem_cons_self) rfl
  | .enum _, _, known =>
    allTypes_reference known (by rw [TypeSpec.declarations]; exact List.mem_cons_self) rfl
  | .bitset _, _, known =>
    allTypes_reference known (by rw [TypeSpec.declarations]; exact List.mem_cons_self) rfl
  | .bitmask _, _, known =>
    allTypes_reference known (by rw [TypeSpec.declarations]; exact List.mem_cons_self) rfl

theorem allTypes_base {kind : SymbolKind} {base : Option NamedType} (bound : BaseOf t kind base)
    (type : kind.isType = true) : AllTypes t (base.bind (·.target)).toList := by
  intro id mem
  rw [base_sound bound id (Option.mem_toList.mp mem)]
  exact type

theorem allTypes_fieldsOf {ms : List (Member TypeSpec)} (settled : ∀ m ∈ ms, SettledMember t m)
    (known : AllSettled t (memberDeclarations ms)) :
    AllTypes t ((fieldsOf t ms).flatMap (·.type.ids)) := by
  refine allTypes_flatMap fun f mem => ?_
  obtain ⟨m, inside, mem⟩ := List.mem_flatMap.mp mem
  obtain ⟨d, -, rfl⟩ := List.mem_map.mp mem
  exact allTypes_typeOf m.type (settled m inside).1
    (known.mono (subset_memberDeclarations ms inside))

/-- Values of a type that is no enum, or is one that is known, refer to types. -/
theorem allTypes_value {type : ConstType} (enums : AllTypes t type.ids) {v : ConstValue}
    (typed : v.HasType type) : AllTypes t v.ids := by
  cases v with
  | enumerator enum _ _ =>
    cases type with
    | enum id =>
      cases typed
      exact enums
    | _ => exact typed.elim
  | _ => exact fun _ mem => by cases mem

/-- Constants of a primitive type are no enumerators. -/
theorem Primitive.constType?_ne_enum (k : Primitive) (id : SymbolId) :
    k.constType? ≠ some (.enum id) := by
  cases k <;> simp [Primitive.constType?]

namespace Clean

variable {parsed s : Specification}

/-- What constants of a type are enumerators of is an enum. -/
theorem allTypes_constType (clean : Clean parsed s t) {τ : TypeSpec} {type : ConstType}
    (inPlace : ∀ e id, τ = .enum e → t.definedAt? e.name.span = some id →
      t.settledAt? e.name = some id ∧ t.kind id = .enum)
    (constants : t.constType? τ = some type) : AllTypes t type.ids := by
  cases type with
  | enum id =>
    obtain ⟨-, last, -, discriminates⟩ := clean.leads inPlace constants rfl
    generalize enum : ConstType.enum id = type at discriminates
    cases discriminates with
    | primitive admits _ =>
      subst enum
      exact absurd admits (Primitive.constType?_ne_enum _ id)
    | enum kind =>
      cases enum
      intro other mem
      rw [List.mem_singleton.mp mem, kind]
      rfl
  | _ => exact fun _ mem => by cases mem

theorem allTypes_const (clean : Clean parsed s t) {d : ConstDecl} (mem : Laid.const d ∈ s.laid)
    {c : Constant} (value : d.value.value = some c) : AllTypes t (c.type.ids ++ c.value.ids) := by
  obtain ⟨y, read, bound⟩ := exists_of_forall₂ clean.bound _ mem
  cases y with
  | const r =>
    obtain ⟨declarations, constant, value', constants, typed⟩ := bound
    rw [value, Option.some_inj] at value'
    subst value'
    -- a name that is not declared anywhere defines nothing
    have enums := clean.allTypes_constType (fun e id eq place => by
      have inside := clean.entered.places _ _ place
      rw [clean.declarations] at inside
      refine absurd inside (clean.placed.unshared r read ⟨e.name, .defined .enum⟩ ?_)
      rw [← declarations, eq, TypeSpec.declarations]
      exact List.mem_cons_self) constants
    rw [allTypes_append]
    exact ⟨enums, allTypes_value enums typed⟩
  | _ => exact bound.elim

theorem allTypes_union (clean : Clean parsed s t) {u : UnionType TypeSpec}
    (mem : Laid.union u ∈ s.laid) :
    AllTypes t (UnionLayout.ids ⟨typeOf t u.discriminant.type, u.cases.map (caseOf t)⟩) := by
  obtain ⟨y, -, bound⟩ := exists_of_forall₂ clean.bound _ mem
  have known := clean.allSettled mem
  obtain ⟨name, ⟨as, type, switchSpan⟩, cases, span⟩ := u
  rw [Laid.declarations, TypeSpec.declarations] at known
  have inner := known.mono (List.subset_cons_self _ _)
  have switched := inner.mono (List.subset_append_left _ _)
  obtain ⟨-, -, admits, -⟩ := clean.checked _ mem
  cases y with
  | union _ =>
    obtain ⟨discriminant, settled, labelled⟩ := bound
    obtain ⟨labelType, eq⟩ :=
      Option.isSome_iff_exists.mp (admits (isUnbound_of_settled discriminant)).2
    rw [eq] at labelled
    have enums := clean.allTypes_constType switched.inPlace (Option.filter_eq_some_iff.mp eq).1
    rw [UnionLayout.ids, allTypes_append]
    refine ⟨allTypes_typeOf type discriminant switched, allTypes_flatMap fun c mem => ?_⟩
    obtain ⟨c, inside, rfl⟩ := List.mem_map.mp mem
    rw [allTypes_append]
    refine ⟨allTypes_flatMap fun v mem => ?_, allTypes_typeOf c.type (settled c inside).1
      (inner.mono (List.subset_append_of_subset_right _ (subset_caseDeclarations cases inside)))⟩
    exact allTypes_value enums (hasType_of_labelsOf (labelled c inside) v mem)
  | _ => exact bound.elim

/-- Whatever an entry refers to is a type. -/
theorem allTypes_of_describes (clean : Clean parsed s t) {x : Laid} (mem : x ∈ s.laid)
    {kind : EntryKind} (describes : Describes t x kind) : AllTypes t kind.ids := by
  have known := clean.allSettled mem
  obtain ⟨y, read, bound⟩ := exists_of_forall₂ clean.bound x mem
  cases x with
  | struct a =>
    subst describes
    cases y with
    | struct r =>
      obtain ⟨name, base, members, span⟩ := a
      rw [Laid.declarations, TypeSpec.declarations] at known
      rw [EntryKind.ids, StructLayout.ids, allTypes_append]
      exact ⟨allTypes_base bound.1 rfl,
        allTypes_fieldsOf bound.2 (known.mono (List.subset_cons_self _ _))⟩
    | _ => exact bound.elim
  | union u =>
    subst describes
    exact clean.allTypes_union mem
  | bitset a =>
    obtain ⟨offset, rfl⟩ := describes
    exact allTypes_base bound.of_bitset.1 rfl
  | typedef type d =>
    subst describes
    cases y with
    | typedef _ _ =>
      exact allTypes_typeOf type bound.1 (known.mono (List.subset_append_left _ _))
    | _ => exact bound.elim
  | const d =>
    obtain ⟨c, value, rfl⟩ := describes
    exact clean.allTypes_const mem value
  | exception d =>
    subst describes
    cases y with
    | exception r =>
      rw [Laid.declarations] at known
      rw [EntryKind.ids, StructLayout.ids, allTypes_append]
      exact ⟨fun _ none => by simp at none,
        allTypes_fieldsOf bound (known.mono (List.subset_cons_self _ _))⟩
    | _ => exact bound.elim
  | enum _ _ =>
    subst describes
    exact fun _ none => by cases none
  | bitmask _ _ =>
    subst describes
    exact fun _ none => by cases none
  | native _ =>
    subst describes
    exact fun _ none => by cases none
  | closed _ _ =>
    obtain ⟨noun, rfl⟩ := describes
    exact fun _ none => by cases none

/-! Which types have entries. -/

/-- A type has an entry, unless a state member defines it in place. -/
theorem get?_isSome_iff (clean : Clean parsed s t) {id : SymbolId}
    (type : (t.kind id).isType = true) :
    ((buildModel s t).get? id).isSome = true ↔ ¬ StateDefined s t id := by
  obtain ⟨rest, perm, untyped⟩ := s.split_declarations
  constructor
  · rintro known ⟨name, kind, mem, place⟩
    have declared : ⟨name, .defined kind⟩ ∈ s.declarations :=
      perm.mem_iff.mpr (List.mem_append_left _ (List.mem_append_right _ mem))
    obtain ⟨e, found⟩ := Option.isSome_iff_exists.mp known
    have same := TypeModel.id_of_get? found
    rcases describes_of_mem (TypeModel.mem_of_get? found) with ⟨x, inside, entry⟩ | ⟨forward, -⟩
    · have place' := (SymbolTable.settledAt?_eq_some_iff.mp entry.place).1
      rw [same] at place'
      have equal := clean.entered.distinct _ _ _ _ id (clean.declared inside) declared place' place
      refine List.disjoint_of_nodup_append clean.nodup_offsets (List.mem_map_of_mem inside) ?_
      exact List.mem_map.mpr ⟨_, mem, by rw [← equal]⟩
    · obtain ⟨other, defines⟩ := clean.entered.defined name kind declared
      have equal := defines.place.symm.trans place
      rw [Option.some_inj] at equal
      rw [same, ← equal, defines.complete] at forward
      cases forward
  · intro outside
    rcases clean.entered.sources id type with awaited | ⟨name, mem, place⟩
    · exact get?_buildModel_isSome (.inr awaited.forward)
    · rcases List.mem_append.mp (perm.mem_iff.mp mem) with mem | mem
      · rcases List.mem_append.mp mem with mem | mem
        · obtain ⟨x, inside, eq⟩ := List.mem_map.mp mem
          obtain ⟨other, settled, -⟩ := clean.settledAt? inside
          have name_eq : x.name = name := congrArg Declaration.name eq
          have equal := (SymbolTable.settledAt?_eq_some_iff.mp settled).1
          rw [name_eq, place, Option.some_inj] at equal
          subst equal
          obtain ⟨e, found, -⟩ := clean.get?_of_laid inside settled
          rw [found]
          rfl
        · exact absurd ⟨name, _, mem, place⟩ outside
      · rw [untyped _ mem _ rfl] at type
        cases type

/-- What occurs in the model has an entry, unless a state member defines it in place. -/
theorem closed (clean : Clean parsed s t) {e : Entry} (mem : e ∈ (buildModel s t).entries)
    {id : SymbolId} (occurs : id ∈ e.kind.ids) :
    ((buildModel s t).get? id).isSome = true ↔ ¬ StateDefined s t id := by
  refine clean.get?_isSome_iff ?_
  rcases describes_of_mem mem with ⟨x, inside, entry⟩ | ⟨-, kind⟩
  · exact clean.allTypes_of_describes inside entry.describes id occurs
  · rw [kind] at occurs
    cases occurs

end Clean

end Idl
