import Idl.Proofs.Layout.Clean

/-!
The model of a document without errors is sound: every reference is bound, every size is positive,
widths are within their types, bases are of the right kind, and names within one owner are distinct.
Main statement: `Clean.sound`.
-/

set_option autoImplicit false

namespace Idl

open Binding Rules

/-! What is sound. -/

/-- No name in the type is unresolved, and its sizes are in range. -/
def LayoutType.Sound : LayoutType → Prop
  | .primitive _ => True
  | .string bound => ∀ n ∈ bound, 1 ≤ n
  | .wstring bound => ∀ n ∈ bound, 1 ≤ n
  | .fixed digits scale =>
    digits = 0 ∧ scale = 0 ∨ 1 ≤ digits ∧ digits ≤ 31 ∧ scale ≤ digits
  | .sequence element bound => element.Sound ∧ ∀ n ∈ bound, 1 ≤ n
  | .set element bound => element.Sound ∧ ∀ n ∈ bound, 1 ≤ n
  | .map key value bound => key.Sound ∧ value.Sound ∧ ∀ n ∈ bound, 1 ≤ n
  | .named _ => True
  | .unresolved _ => False

structure Field.Sound (f : Field) : Prop where
  type : f.type.Sound
  dims : ∀ n ∈ f.dims, 1 ≤ n

/-- The fields of a struct or exception. -/
structure StructLayout.Sound (t : SymbolTable) (s : StructLayout) : Prop where
  base : ∀ id ∈ s.base, t.kind id = .struct
  fields : ∀ f ∈ s.fields, f.Sound
  distinct : (s.fields.map (·.name)).Nodup

structure UnionLayout.Sound (u : UnionLayout) : Prop where
  discriminant : u.discriminant.Sound
  fields : ∀ c ∈ u.cases, c.field.Sound
  distinct : (u.cases.map (·.field.name)).Nodup

/-- The width is that of some bits of the type. -/
def BitfieldLayout.Sound (f : BitfieldLayout) : Prop :=
  1 ≤ f.width ∧ ∃ width, f.type.bitWidth? = some width ∧ f.width ≤ width

structure BitsetLayout.Sound (t : SymbolTable) (s : BitsetLayout) : Prop where
  base : ∀ id ∈ s.base, t.kind id = .bitset
  fields : ∀ f ∈ s.fields, f.Sound
  distinct : (s.fields.filterMap (·.name)).Nodup

def EntryKind.Sound (t : SymbolTable) : EntryKind → Prop
  | .struct s => s.Sound t
  | .union u => u.Sound
  | .enum e => e.enumerators.Nodup
  | .bitmask s => (s.flags.map (·.name)).Nodup
  | .bitset s => s.Sound t
  | .typedef a => a.type.Sound ∧ ∀ n ∈ a.dims, 1 ≤ n
  | .exception s => s.Sound t
  | .const _ => True
  | .native => True
  | .sealed _ => True

/-! Sizes. -/

/-- A size that was evaluated is the number it was evaluated to, unless that is negative. -/
theorem size_of_sized {e : ConstExpr} (sized : Sized e) :
    ∃ v, intValue? e = some v ∧ (0 ≤ v → (Layout.size e : Int) = v) := by
  obtain ⟨value, eq, typed⟩ := sized
  cases value with
  | int v =>
    refine ⟨v, by rw [intValue?, eq]; rfl, fun nonneg => ?_⟩
    have range : v < UInt64.size := by
      have upper : v ≤ IntKind.max .int64 := typed.2
      have max : IntKind.max .int64 < UInt64.size := by decide
      omega
    rw [Layout.size, ConstExpr.positive?, eq]
    simp only [Option.bind_some, ConstValue.positive?, ConstValue.int?]
    split
    · simp only [Option.getD_some]
      omega
    · simp only [Option.getD_none]
      omega
  | _ => exact typed.elim

theorem one_le_size {e : ConstExpr} (sized : Sized e) (positive : Positive e) :
    1 ≤ Layout.size e := by
  obtain ⟨v, value, eq⟩ := size_of_sized sized
  have lower := positive v value
  have same := eq (Int.le_of_lt lower)
  omega

theorem one_le_bound {bound : Option ConstExpr} (sized : ∀ e ∈ bound, Sized e)
    (positive : ∀ e ∈ bound, Positive e) : ∀ n ∈ bound.map Layout.size, 1 ≤ n := by
  intro n mem
  obtain ⟨e, inside, rfl⟩ := Option.map_eq_some_iff.mp mem
  exact one_le_size (sized e inside) (positive e inside)

theorem one_le_dims {d : Declarator} (sized : ∀ e ∈ d.dims, Sized e)
    (positive : ∀ e ∈ d.dims, Positive e) : ∀ n ∈ Layout.dims d, 1 ≤ n := by
  intro n mem
  obtain ⟨e, inside, rfl⟩ := List.mem_map.mp mem
  exact one_le_size (sized e inside) (positive e inside)

theorem wordSize_of_sized {e : ConstExpr} (sized : Sized e) {v : Int}
    (value : intValue? e = some v) (lower : 0 ≤ v) (upper : v ≤ 64) :
    (Layout.wordSize e : Int) = v := by
  obtain ⟨w, found, eq⟩ := size_of_sized sized
  have same : w = v := Option.some_inj.mp (found.symm.trans value)
  subst same
  have size := eq lower
  have small : Layout.size e < UInt32.size := by
    have limit : (64 : Nat) < UInt32.size := by decide
    omega
  rw [Layout.wordSize, Layout.word, if_pos small]
  exact size

theorem fixed_sound {digits scale : ConstExpr} (sized : Sized digits ∧ Sized scale)
    (fits : InFixedRange digits scale) :
    (LayoutType.fixed (Layout.wordSize digits) (Layout.wordSize scale)).Sound := by
  obtain ⟨d, hasDigits, -⟩ := size_of_sized sized.1
  obtain ⟨s, hasScale, -⟩ := size_of_sized sized.2
  obtain ⟨lower, upper, nonneg, within⟩ := fits d s hasDigits hasScale
  have limit : maxFixedDigits = 31 := rfl
  have first := wordSize_of_sized sized.1 hasDigits (by omega) (by omega)
  have second := wordSize_of_sized sized.2 hasScale nonneg (by omega)
  exact .inr ⟨by omega, by omega, by omega⟩

/-! Types and fields. -/

/-- Each name that defines something has a symbol that is settled. -/
def AllSettled (t : SymbolTable) (ds : List Declaration) : Prop :=
  ∀ name kind, ⟨name, .defined kind⟩ ∈ ds → ∃ id, t.settledAt? name = some id ∧ t.kind id = kind

theorem AllSettled.mono {t : SymbolTable} {ds es : List Declaration} (settled : AllSettled t ds)
    (declared : es ⊆ ds) : AllSettled t es :=
  fun name kind mem => settled name kind (declared mem)

theorem Entered.allSettled {t : SymbolTable} {ds : List Declaration} (entered : Entered t ds) :
    AllSettled t ds := by
  intro name kind mem
  obtain ⟨id, defines⟩ := entered.defined name kind mem
  exact ⟨id, SymbolTable.settledAt?_eq_some_iff.mpr ⟨defines.place, defines.complete⟩,
    defines.kind_eq⟩

variable {t : SymbolTable}

theorem reference_sound {ds : List Declaration} (settled : AllSettled t ds) {name : Ident}
    {kind : SymbolKind} (declared : ⟨name, .defined kind⟩ ∈ ds) :
    (Layout.reference name (t.settledAt? name)).Sound := by
  obtain ⟨id, place, -⟩ := settled name kind declared
  rw [place]
  trivial

theorem typeOf_sound : (τ : TypeSpec) → Settled t τ → FitsType τ → AllSettled t τ.declarations →
    (Layout.typeOf t τ).Sound
  | .primitive _, _, _, _ => trivial
  | .named type, settled, _, _ => by
    obtain ⟨id, target, -⟩ := settled
    rw [Layout.typeOf, target]
    trivial
  | .sequence element _, settled, fits, known =>
    ⟨typeOf_sound element settled.1 fits.1 known, one_le_bound settled.2 fits.2⟩
  | .set element _, settled, fits, known =>
    ⟨typeOf_sound element settled.1 fits.1 known, one_le_bound settled.2 fits.2⟩
  | .map key value _, settled, fits, known => by
    rw [TypeSpec.declarations] at known
    exact ⟨typeOf_sound key settled.1 fits.1 (known.mono (List.subset_append_left _ _)),
      typeOf_sound value settled.2.1 fits.2.1 (known.mono (List.subset_append_right _ _)),
      one_le_bound settled.2.2 fits.2.2⟩
  | .string _, settled, fits, _ => one_le_bound settled fits
  | .wstring _, settled, fits, _ => one_le_bound settled fits
  | .fixed none, _, _, _ => .inl ⟨rfl, rfl⟩
  | .fixed (some (_, _)), settled, fits, _ => fixed_sound settled fits
  | .struct ⟨_, _, _, _⟩, _, _, known =>
    reference_sound known (by rw [TypeSpec.declarations]; exact List.mem_cons_self)
  | .union ⟨_, ⟨_, _, _⟩, _, _⟩, _, _, known =>
    reference_sound known (by rw [TypeSpec.declarations]; exact List.mem_cons_self)
  | .enum _, _, _, known =>
    reference_sound known (by rw [TypeSpec.declarations]; exact List.mem_cons_self)
  | .bitset _, _, _, known =>
    reference_sound known (by rw [TypeSpec.declarations]; exact List.mem_cons_self)
  | .bitmask _, _, _, known =>
    reference_sound known (by rw [TypeSpec.declarations]; exact List.mem_cons_self)

/-- What the type of a member declares is among what the members declare. -/
theorem subset_memberDeclarations {m : Member TypeSpec} : (ms : List (Member TypeSpec)) → m ∈ ms →
    m.type.declarations ⊆ memberDeclarations ms
  | ⟨as, type, ds, span⟩ :: rest, mem => by
    rw [memberDeclarations]
    rcases List.mem_cons.mp mem with rfl | mem
    · exact List.subset_append_left _ _
    · exact List.subset_append_of_subset_right _ (subset_memberDeclarations rest mem)

theorem subset_caseDeclarations {c : UnionCase TypeSpec} : (cs : List (UnionCase TypeSpec)) →
    c ∈ cs → c.type.declarations ⊆ caseDeclarations cs
  | ⟨ls, as, type, d, span⟩ :: rest, mem => by
    rw [caseDeclarations]
    rcases List.mem_cons.mp mem with rfl | mem
    · exact List.subset_append_left _ _
    · exact List.subset_append_of_subset_right _ (subset_caseDeclarations rest mem)

theorem fieldsOf_sound {ms : List (Member TypeSpec)} (settled : ∀ m ∈ ms, SettledMember t m)
    (fits : ∀ m ∈ ms, FitsMember m) (known : AllSettled t (memberDeclarations ms)) :
    ∀ f ∈ Layout.fieldsOf t ms, f.Sound := by
  intro f mem
  obtain ⟨m, inside, mem⟩ := List.mem_flatMap.mp mem
  obtain ⟨d, declared, rfl⟩ := List.mem_map.mp mem
  exact ⟨typeOf_sound m.type (settled m inside).1 (fits m inside).1
      (known.mono (subset_memberDeclarations ms inside)),
    one_le_dims ((settled m inside).2 d declared) ((fits m inside).2 d declared)⟩

theorem names_fieldsOf (t : SymbolTable) (ms : List (Member TypeSpec)) :
    (Layout.fieldsOf t ms).map (·.name) = (memberNames ms).map (·.name) := by
  simp only [Layout.fieldsOf, memberNames, List.map_flatMap, List.map_map]
  rfl

/-! Bitfields. -/

theorem mem_bitfieldRun {width : Nat} {type : Primitive} (names : List (Option String))
    (offset : Nat) : ∀ f ∈ (Layout.bitfieldRun width type offset names).1,
      f.width = width ∧ f.type = type := by
  induction names generalizing offset with
  | nil => simp [Layout.bitfieldRun]
  | cons name names ih =>
    intro f mem
    rcases List.mem_cons.mp mem with rfl | mem
    · exact ⟨rfl, rfl⟩
    · exact ih _ f mem

theorem names_bitfieldRun (width : Nat) (type : Primitive) (names : List (Option String))
    (offset : Nat) : (Layout.bitfieldRun width type offset names).1.map (·.name) = names := by
  induction names generalizing offset with
  | nil => rfl
  | cons name names ih =>
    rw [Layout.bitfieldRun, List.map_cons]
    exact congrArg (name :: ·) (ih _)

theorem mem_bitfields (fs : List Bitfield) (offset : Nat) :
    ∀ f ∈ (Layout.bitfields offset fs).1, ∃ g ∈ fs, f.width = Layout.wordSize g.width ∧
      f.type = g.type.getD (Layout.impliedType (Layout.wordSize g.width)) := by
  induction fs generalizing offset with
  | nil => simp [Layout.bitfields]
  | cons g fs ih =>
    intro f mem
    rcases List.mem_append.mp mem with mem | mem
    · exact ⟨g, by simp, mem_bitfieldRun _ _ f mem⟩
    · obtain ⟨h, inside, same⟩ := ih _ f mem
      exact ⟨h, by simp [inside], same⟩

theorem names_bitfields (fs : List Bitfield) (offset : Nat) :
    (Layout.bitfields offset fs).1.filterMap (·.name) =
      (fs.flatMap (·.names)).map (·.name) := by
  induction fs generalizing offset with
  | nil => rfl
  | cons g fs ih =>
    have run (names : List (Option String)) (width : Nat) (type : Primitive) :
        (Layout.bitfieldRun width type offset names).1.filterMap (·.name) =
          names.filterMap id := by
      have same := congrArg (List.filterMap id)
        (names_bitfieldRun width type names offset)
      rwa [List.filterMap_map] at same
    have own : (if g.names.isEmpty then [none] else g.names.map fun n => some n.name).filterMap id =
        g.names.map (·.name) := by
      cases names : g.names with
      | nil => rfl
      | cons n rest => simp [List.filterMap_map]
    rw [Layout.bitfields, List.filterMap_append, List.flatMap_cons, List.map_append, run, own, ih]

/-- A bitfield without a type of its own gets one that it fits. -/
theorem impliedType_fits {width : Nat} (small : width ≤ 64) :
    ∃ bits, (Layout.impliedType width).bitWidth? = some bits ∧ width ≤ bits := by
  unfold Layout.impliedType
  split
  · exact ⟨1, rfl, by assumption⟩
  · split
    · exact ⟨8, rfl, by assumption⟩
    · split
      · exact ⟨16, rfl, by assumption⟩
      · split
        · exact ⟨32, rfl, by assumption⟩
        · exact ⟨64, rfl, small⟩

theorem bitfields_sound {fs : List Bitfield} (sized : ∀ f ∈ fs, Sized f.width)
    (fit : ∀ f ∈ fs, FitsWidth f)
    (widths : ∀ f ∈ fs, ∀ k ∈ f.type, k.bitWidth?.isSome = true) (offset : Nat) :
    ∀ f ∈ (Layout.bitfields offset fs).1, f.Sound := by
  intro f mem
  obtain ⟨g, inside, width, type⟩ := mem_bitfields fs offset f mem
  obtain ⟨v, value, -⟩ := size_of_sized (sized g inside)
  obtain ⟨lower, upper⟩ := fit g inside v value
  rw [BitfieldLayout.Sound, width, type]
  cases own : g.type with
  | none =>
    rw [own] at upper
    have limit : maxWidth none = 64 := rfl
    have same := wordSize_of_sized (sized g inside) value (by omega) (by omega)
    exact ⟨by omega, impliedType_fits (by omega)⟩
  | some k =>
    obtain ⟨bits, known⟩ := Option.isSome_iff_exists.mp (widths g inside k own)
    rw [own] at upper
    have limit : maxWidth (some k) = bits := by simp [maxWidth, known]
    have small : bits ≤ 64 := by
      cases k <;> simp [Primitive.bitWidth?] at known <;> omega
    have same := wordSize_of_sized (sized g inside) value (by omega) (by omega)
    exact ⟨by omega, bits, known, by omega⟩

/-! Entries. -/

theorem base_sound {kind : SymbolKind} {base : Option NamedType} (bound : BaseOf t kind base) :
    ∀ id ∈ base.bind (·.target), t.kind id = kind := by
  intro id mem
  obtain ⟨type, inside, target⟩ := Option.bind_eq_some_iff.mp mem
  obtain ⟨id', target', found⟩ := bound type inside
  rw [target, Option.some_inj] at target'
  rw [target', found]

theorem isUnbound_of_settled {τ : TypeSpec} (settled : Settled t τ) : isUnbound τ = false := by
  cases τ with
  | named type =>
    obtain ⟨id, target, -⟩ := settled
    simp [isUnbound, target]
  | _ => rfl

theorem names_flags (values : List Enumerator) :
    (Layout.flags values).map (·.name) = values.map (·.name.name) := by
  rw [Layout.flags, List.map_map]
  have first : (values.zip (flagPositions 0 values)).map Prod.fst = values :=
    List.map_fst_zip (by simp)
  calc (values.zip (flagPositions 0 values)).map _
      = ((values.zip (flagPositions 0 values)).map Prod.fst).map (·.name.name) := by
        rw [List.map_map]; rfl
    _ = values.map (·.name.name) := by rw [first]

/-- The names in a list are distinct when the places in it are, unless one was declared twice. -/
theorem nodup_of_listed {ds : List Declaration} (entered : Entered t ds) (apart : Apart ds)
    (quiet : t.redeclarations = []) {owner : Ident} {kind : SymbolKind} {values : List Enumerator}
    (declared : (listing owner kind values).Sublist ds) :
    (values.map (·.name.name)).Nodup := by
  have places : ((listing owner kind values).map (·.name.span.offset)).Nodup :=
    apart.sublist (declared.map _)
  rw [listing, List.map_cons, List.nodup_cons, List.map_map] at places
  have listed (v : Enumerator) (mem : v ∈ values) : ⟨v.name, .listed owner⟩ ∈ ds :=
    declared.subset (List.mem_cons_of_mem _ (List.mem_map_of_mem mem))
  refine List.Nodup.of_map (f := fun v => v) ?_
  rw [List.map_id']
  refine List.pairwise_map.mpr ?_
  refine (List.pairwise_map.mp places.2).imp_of_mem fun {v w} first second unequal same => ?_
  have equal := entered.unlike quiet v.name w.name owner (listed v first) (listed w second) same
  exact unequal (by simp [equal])

variable {parsed s : Specification}

theorem Clean.allSettled (clean : Clean parsed s t) {x : Laid} (mem : x ∈ s.laid) :
    AllSettled t x.declarations :=
  clean.entered.allSettled.mono (s.declarations_of_laid x mem).subset

/-- The fields of a struct or exception whose members keep the rules. -/
theorem structLayout_sound {base : Option SymbolId} {ms : List (Member TypeSpec)}
    (bases : ∀ id ∈ base, t.kind id = .struct) (settled : ∀ m ∈ ms, SettledMember t m)
    (checked : ((memberNames ms).map (·.name)).Nodup ∧ ∀ m ∈ ms, FitsMember m)
    (known : AllSettled t (memberDeclarations ms)) :
    StructLayout.Sound t ⟨base, Layout.fieldsOf t ms⟩ where
  base := bases
  fields := fieldsOf_sound settled checked.2 known
  distinct := by
    rw [names_fieldsOf]
    exact checked.1

theorem unionLayout_sound {u : UnionType TypeSpec} (discriminant : Settled t u.discriminant.type)
    (settled : ∀ c ∈ u.cases, SettledCase t c) (checked : Checked t (.union u))
    (known : AllSettled t (TypeSpec.union u).declarations) :
    UnionLayout.Sound ⟨Layout.typeOf t u.discriminant.type, u.cases.map (Layout.caseOf t)⟩ := by
  obtain ⟨name, ⟨as, type, switchSpan⟩, cases, span⟩ := u
  obtain ⟨distinct, fits, admits, -⟩ := checked
  rw [TypeSpec.declarations] at known
  have inner := known.mono (List.subset_cons_self _ _)
  refine ⟨typeOf_sound type discriminant (admits (isUnbound_of_settled discriminant)).1
    (inner.mono (List.subset_append_left _ _)), fun c mem => ?_, ?_⟩
  · obtain ⟨c, inside, rfl⟩ := List.mem_map.mp mem
    exact ⟨typeOf_sound c.type (settled c inside).1 (fits c inside).1
        (inner.mono (List.subset_append_of_subset_right _ (subset_caseDeclarations cases inside))),
      one_le_dims (settled c inside).2 (fits c inside).2⟩
  · rw [List.map_map]
    exact distinct

/-- The second declaration is one of the first kind when it is bound from one. -/
theorem BoundAs.of_bitset {x : Laid} {s : BitsetType} (bound : BoundAs t x (.bitset s)) :
    BaseOf t .bitset s.base ∧ ∀ f ∈ s.bitfields, Sized f.width ∧
      ∃ r, x = .bitset r ∧ ∃ g ∈ r.bitfields, g.type = f.type := by
  cases x with
  | bitset r =>
    exact ⟨bound.1, fun f mem => ⟨(bound.2 f mem).1, r, rfl, (bound.2 f mem).2⟩⟩
  | _ => exact bound.elim

theorem bitsetLayout_sound (placed : WellPlaced parsed) {x : Laid} (read : x ∈ parsed.laid)
    {a : BitsetType} (bound : BoundAs t x (.bitset a)) (checked : Checked t (.bitset a))
    (offset : Nat) :
    BitsetLayout.Sound t ⟨a.base.bind (·.target), (Layout.bitfields offset a.bitfields).1,
      (Layout.bitfields offset a.bitfields).2⟩ := by
  obtain ⟨base, fields⟩ := bound.of_bitset
  refine ⟨base_sound base, bitfields_sound (fun f mem => (fields f mem).1) checked.2
    (fun f mem k type => ?_) offset, ?_⟩
  · obtain ⟨-, r, rfl, g, inside, same⟩ := fields f mem
    exact placed.widths r read g inside k (by rw [same]; exact type)
  · rw [names_bitfields]
    exact checked.1

/-- The layout of a declaration is sound. -/
theorem sound_of_describes (clean : Clean parsed s t) {x : Laid} (mem : x ∈ s.laid)
    {kind : EntryKind} (describes : Layout.Describes t x kind) : kind.Sound t := by
  have checked := clean.checked x mem
  have known := clean.allSettled mem
  have declared := s.declarations_of_laid x mem
  obtain ⟨y, read, bound⟩ := exists_of_forall₂ clean.bound x mem
  cases x with
  | struct a =>
    subst describes
    cases y with
    | struct r =>
      obtain ⟨name, base, members, span⟩ := a
      refine structLayout_sound (base_sound bound.1) bound.2 checked (known.mono ?_)
      rw [Laid.declarations, TypeSpec.declarations]
      exact List.subset_cons_self _ _
    | _ => exact bound.elim
  | union u =>
    subst describes
    cases y with
    | union r => exact unionLayout_sound bound.1 bound.2.1 checked known
    | _ => exact bound.elim
  | enum as e =>
    subst describes
    exact nodup_of_listed clean.entered (clean.declarations ▸ clean.placed.apart) clean.quiet
      declared
  | bitset a =>
    obtain ⟨offset, rfl⟩ := describes
    exact bitsetLayout_sound clean.placed read bound checked offset
  | bitmask as a =>
    subst describes
    rw [EntryKind.Sound, names_flags]
    exact checked.1
  | typedef type d =>
    subst describes
    cases y with
    | typedef _ _ =>
      exact ⟨typeOf_sound type bound.1 checked.1 (known.mono (List.subset_append_left _ _)),
        one_le_dims bound.2.1 checked.2⟩
    | _ => exact bound.elim
  | const d =>
    obtain ⟨constant, -, rfl⟩ := describes
    trivial
  | exception d =>
    subst describes
    cases y with
    | exception r =>
      refine structLayout_sound (fun id none => by cases none) bound checked (known.mono ?_)
      rw [Laid.declarations]
      exact List.subset_cons_self _ _
    | _ => exact bound.elim
  | native name =>
    subst describes
    trivial
  | closed name k =>
    obtain ⟨noun, rfl⟩ := describes
    trivial

/-- The model of a clean unit is sound. -/
theorem Clean.sound (clean : Clean parsed s t) :
    ∀ e ∈ (buildModel s t).entries, e.kind.Sound t := by
  intro e mem
  rcases describes_of_mem mem with ⟨x, inside, entry⟩ | ⟨-, kind⟩
  · exact sound_of_describes clean inside entry.describes
  · rw [kind]
    trivial

end Idl
