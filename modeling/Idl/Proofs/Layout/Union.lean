import Idl.Layout.Basic
import Idl.Proofs.Layout.Clean
import Idl.Proofs.Layout.Sound
import Mathlib.Data.List.Nodup
import Mathlib.Data.List.Pairwise
import Mathlib.Data.List.Perm.Subperm

/-!
The unions of a document without errors: labels are values of what the discriminant stands for in
the model, no two are alike, and so each value selects one case. A chain of typedefs that ends
passes no entry twice, so that as many steps as there are entries reach its end; main statement:
`Leads.unalias`.
-/

set_option autoImplicit false

namespace Idl

/-! Following typedefs through a model. -/

namespace TypeModel

/-- The type that a typedef without array dimensions stands for. -/
def behind? (m : TypeModel) (id : SymbolId) : Option LayoutType :=
  match m.get? id with
  | some ⟨_, _, .typedef layout⟩ => if layout.dims.isEmpty then some layout.type else none
  | _ => none

/-- The typedefs `ids` lead from one type to another, which is none. -/
inductive Leads (m : TypeModel) : List SymbolId → LayoutType → LayoutType → Prop
  | done {type : LayoutType} (terminal : ∀ id, type = .named id → m.behind? id = none) :
    Leads m [] type type
  | step {id : SymbolId} {ids : List SymbolId} {next last : LayoutType}
    (behind : m.behind? id = some next) (rest : Leads m ids next last) :
    Leads m (id :: ids) (.named id) last

theorem unaliasWithin_named (m : TypeModel) (fuel : Nat) (id : SymbolId) :
    m.unaliasWithin (fuel + 1) (.named id) =
      match m.behind? id with
      | some next => m.unaliasWithin fuel next
      | none => .named id := by
  rw [unaliasWithin, behind?]
  rcases m.get? id with _ | ⟨_, _, kind⟩
  · rfl
  · cases kind with
    | typedef layout =>
      dsimp only
      split <;> rfl
    | _ => rfl

namespace Leads

variable {m : TypeModel} {ids ids' : List SymbolId} {type last last' : LayoutType}

theorem unaliasWithin (leads : Leads m ids type last) {fuel : Nat} (enough : ids.length ≤ fuel) :
    m.unaliasWithin fuel type = last := by
  induction leads generalizing fuel with
  | @done type terminal =>
    cases fuel with
    | zero => rfl
    | succ fuel =>
      cases type with
      | named id =>
        rw [unaliasWithin_named, terminal id rfl]
      | _ => rfl
  | step behind rest ih =>
    cases fuel with
    | zero => simp at enough
    | succ fuel =>
      rw [unaliasWithin_named, behind]
      exact ih (Nat.le_of_succ_le_succ enough)

/-- Each type has one chain at most. -/
theorem deterministic (leads : Leads m ids type last) (other : Leads m ids' type last') :
    ids = ids' := by
  induction leads generalizing ids' with
  | done terminal =>
    cases other with
    | done _ => rfl
    | step behind _ => rw [terminal _ rfl] at behind; cases behind
  | step behind rest ih =>
    cases other with
    | done terminal => rw [terminal _ rfl] at behind; cases behind
    | step behind' rest' =>
      rw [behind, Option.some_inj] at behind'
      subst behind'
      rw [ih rest']

/-- From each typedef on the way, fewer lead to the end. -/
theorem suffix (leads : Leads m ids type last) {id : SymbolId} (mem : id ∈ ids) :
    ∃ rest, Leads m rest (.named id) last ∧ rest.length ≤ ids.length := by
  induction leads with
  | done _ => cases mem
  | @step first ids next last behind rest ih =>
    rcases List.mem_cons.mp mem with rfl | mem
    · exact ⟨_, .step behind rest, Nat.le_refl _⟩
    · obtain ⟨shorter, leads, length⟩ := ih mem
      exact ⟨shorter, leads, Nat.le_succ_of_le length⟩

theorem nodup (leads : Leads m ids type last) : ids.Nodup := by
  induction leads with
  | done _ => exact List.nodup_nil
  | @step first ids next last behind rest ih =>
    refine List.nodup_cons.mpr ⟨fun again => ?_, ih⟩
    obtain ⟨shorter, leads, length⟩ := rest.suffix again
    have same := deterministic leads (.step behind rest)
    rw [same, List.length_cons] at length
    exact Nat.not_succ_le_self _ length

theorem subset_entries (leads : Leads m ids type last) : ids ⊆ m.entries.map (·.id) := by
  induction leads with
  | done _ => exact List.nil_subset _
  | @step first ids next last behind rest ih =>
    refine List.cons_subset.mpr ⟨?_, ih⟩
    rw [behind?] at behind
    split at behind
    · next found =>
      refine List.mem_map.mpr ⟨_, List.mem_of_find?_eq_some found, ?_⟩
      simpa using List.find?_some found
    · cases behind

theorem unalias (leads : Leads m ids type last) : m.unalias type = last := by
  have length := (leads.nodup.subperm leads.subset_entries).length_le
  rw [List.length_map] at length
  exact leads.unaliasWithin length

end Leads

end TypeModel

/-! Unions. -/

open Binding Layout Rules

/-- The layout, which is no typedef, is that of the discrete type that labels are values of. -/
inductive LayoutType.Discriminates (t : SymbolTable) : LayoutType → ConstType → Prop
  | primitive {k : Primitive} {type : ConstType} (admits : k.constType? = some type)
    (discrete : type.isDiscrete = true) : Discriminates t (.primitive k) type
  | enum {id : SymbolId} (kind : t.kind id = .enum) : Discriminates t (.named id) (.enum id)

/-- The labels of a union, over the model that it is part of. -/
structure UnionLayout.WellLabelled (t : SymbolTable) (m : TypeModel) (u : UnionLayout) : Prop where
  typed : ∃ type, (m.unalias u.discriminant).Discriminates t type ∧
    ∀ c ∈ u.cases, ∀ v ∈ c.labels, v.HasType type
  distinct : (u.cases.flatMap (·.labels)).Nodup
  default : (u.cases.filter (·.isDefault)).length ≤ 1
  /-- A label selects its case, and no other has it. -/
  selects : ∀ c ∈ u.cases, ∀ v ∈ c.labels, u.caseFor? v = some c ∧
    ∀ c' ∈ u.cases, v ∈ c'.labels → c' = c
  /-- What is no label selects the default case, if there is one. -/
  otherwise : ∀ v, (∀ c ∈ u.cases, v ∉ c.labels) → ∀ c,
    u.caseFor? v = some c ↔ c ∈ u.cases ∧ c.isDefault = true

/-! The discriminant. -/

/-- An enum that is written in place is the symbol that its name defines. -/
theorem AllSettled.inPlace {t : SymbolTable} {τ : TypeSpec} (known : AllSettled t τ.declarations)
    (e : EnumType) (id : SymbolId) (eq : τ = .enum e) (place : t.definedAt? e.name.span = some id) :
    t.settledAt? e.name = some id ∧ t.kind id = .enum := by
  subst eq
  obtain ⟨other, settled, kind⟩ := known e.name .enum (by
    rw [TypeSpec.declarations]
    exact List.mem_cons_self)
  rw [(SymbolTable.settledAt?_eq_some_iff.mp settled).1, Option.some_inj] at place
  subst place
  exact ⟨settled, kind⟩

namespace Clean

variable {parsed s : Specification} {t : SymbolTable}

theorem behind?_eq_none (clean : Clean parsed s t) {id : SymbolId} (kind : t.kind id ≠ .typedef) :
    (buildModel s t).behind? id = none := by
  rw [TypeModel.behind?]
  split
  · next name layout found =>
    have typedef := clean.kind_of_typedef (TypeModel.mem_of_get? found) rfl
    rw [TypeModel.id_of_get? found] at typedef
    exact absurd typedef kind
  · rfl

/-- A typedef without array dimensions stands for its type, in the table and in the model. -/
theorem behind?_of_typedef (clean : Clean parsed s t) {id : SymbolId} (kind : t.kind id = .typedef)
    {a : Alias} (aliased : (t.symbol id).aliased = some a) (plain : a.isArray = false) :
    ∃ τ, (buildModel s t).behind? id = some (typeOf t τ) ∧ τ.head = a.type.head ∧
      AllSettled t τ.declarations := by
  obtain ⟨τ, d, mem, place⟩ := clean.typedef_laid kind
  obtain ⟨y, -, bound⟩ := exists_of_forall₂ clean.bound _ mem
  have known := (clean.allSettled mem).mono (List.subset_append_left _ _)
  obtain ⟨e, found, describes⟩ := clean.get?_of_laid mem place
  cases y with
  | typedef _ _ =>
    obtain ⟨-, -, outlined⟩ := bound
    have outline := outlined id (SymbolTable.settledAt?_eq_some_iff.mp place).1
    rw [aliased, Option.map_some, Option.some_inj, Alias.outline, plain, Prod.mk.injEq] at outline
    refine ⟨τ, ?_, outline.1.symm, known⟩
    obtain ⟨number, name, kind⟩ := e
    subst describes
    have empty : (Layout.dims d).isEmpty = true := by simpa [Layout.dims] using outline.2
    simp only [TypeModel.behind?, found, empty, if_true]
  | _ => exact bound.elim

/-- The typedefs that the table follows to find what constants of a type are lead, in the model, to
the layout of just that. -/
theorem leads (clean : Clean parsed s t) {fuel : Nat} {τ : TypeSpec} {type : ConstType}
    (inPlace : ∀ e id, τ = .enum e → t.definedAt? e.name.span = some id →
      t.settledAt? e.name = some id ∧ t.kind id = .enum)
    (admits : t.constTypeWithin? fuel τ = some type) (discrete : type.isDiscrete = true) :
    ∃ ids last, (buildModel s t).Leads ids (typeOf t τ) last ∧ last.Discriminates t type := by
  induction fuel generalizing τ with
  | zero => cases admits
  | succ fuel ih =>
    cases τ with
    | primitive k =>
      exact ⟨[], _, .done (fun _ named => by cases named), .primitive admits discrete⟩
    | named name =>
      rw [SymbolTable.constTypeWithin?_succ, TypeSpec.head] at admits
      cases target : name.target with
      | none =>
        rw [target] at admits
        cases admits
      | some id =>
        rw [target, SymbolTable.headType?] at admits
        rw [typeOf, target]
        dsimp only
        split at admits
        · next kind =>
          cases admits
          refine ⟨[], _, .done fun _ named => ?_, .enum kind⟩
          cases named
          exact clean.behind?_eq_none (by rw [kind]; decide)
        · next kind =>
          rw [SymbolTable.aliasTypeWithin?] at admits
          split at admits
          · next a aliased =>
            split at admits
            · cases admits
            · next plain =>
              obtain ⟨σ, behind, head, known⟩ :=
                clean.behind?_of_typedef kind aliased (Bool.eq_false_iff.mpr plain)
              rw [← SymbolTable.constTypeWithin?_congr (SameOutline.refl t) fuel head] at admits
              obtain ⟨ids, last, leads, discriminates⟩ := ih known.inPlace admits
              exact ⟨id :: ids, last, .step behind leads, discriminates⟩
          · cases admits
        · cases admits
    | enum e =>
      rw [SymbolTable.constTypeWithin?] at admits
      obtain ⟨id, found, rfl⟩ := Option.map_eq_some_iff.mp admits
      obtain ⟨place, kind⟩ := inPlace e id rfl found
      rw [typeOf, place]
      refine ⟨[], _, .done fun _ named => ?_, .enum kind⟩
      cases named
      exact clean.behind?_eq_none (by rw [kind]; decide)
    | string _ => cases admits; cases discrete
    | wstring _ => cases admits; cases discrete
    | fixed _ => cases admits; cases discrete
    | _ => cases admits

end Clean

/-! The labels. -/

/-- Discrete values are the same when they are equal. -/
theorem ConstValue.same_of_hasType {v w : ConstValue} {type : ConstType} (typed : v.HasType type)
    (discrete : type.isDiscrete = true) : v.same w = true ↔ v = w := by
  cases v with
  | float x => cases type <;> first | exact typed.elim | cases discrete
  | fixed x => cases type <;> first | exact typed.elim | cases discrete
  | _ => simp [ConstValue.same]

theorem labels_flatMap (t : SymbolTable) (cs : List (UnionCase TypeSpec)) :
    (cs.map (caseOf t)).flatMap (·.labels) = labelValues (cs.flatMap (·.labels)) := by
  rw [labelValues, List.filterMap_flatMap, List.flatMap_map]
  rfl

theorem length_defaults (t : SymbolTable) (cs : List (UnionCase TypeSpec)) :
    ((cs.map (caseOf t)).filter (·.isDefault)).length ≤
      ((cs.flatMap (·.labels)).filter isDefault).length := by
  induction cs with
  | nil => exact Nat.le_refl _
  | cons c cs ih =>
    rw [List.map_cons, List.flatMap_cons, List.filter_append, List.length_append, List.filter_cons]
    split
    · next default =>
      have some : 0 < (c.labels.filter isDefault).length := by
        obtain ⟨l, mem, holds⟩ := List.any_eq_true.mp default
        refine List.length_pos_of_mem (a := l) (List.mem_filter.mpr ⟨mem, ?_⟩)
        cases l with
        | default _ => rfl
        | value _ => cases holds
      rw [List.length_cons]
      omega
    · omega

namespace UnionLayout

variable {u : UnionLayout} {v : ConstValue}

theorem caseFor?_eq_some {type : ConstType} (discrete : type.isDiscrete = true)
    (typed : ∀ c ∈ u.cases, ∀ v ∈ c.labels, v.HasType type) {c : CaseLayout} (mem : c ∈ u.cases)
    (label : v ∈ c.labels) (unique : ∀ c' ∈ u.cases, v ∈ c'.labels → c' = c) :
    u.caseFor? v = some c := by
  have found : u.cases.find? (fun c => c.labels.any (·.same v)) = some c := by
    cases found : u.cases.find? (fun c => c.labels.any (·.same v)) with
    | none =>
      have unlike := List.find?_eq_none.mp found c mem
      refine absurd (List.any_eq_true.mpr ⟨v, label, ?_⟩) unlike
      exact (ConstValue.same_of_hasType (typed c mem v label) discrete).mpr rfl
    | some c' =>
      have mem' := List.mem_of_find?_eq_some found
      have any : c'.labels.any (·.same v) = true :=
        List.find?_some (p := fun c : CaseLayout => c.labels.any (·.same v)) found
      obtain ⟨w, label', same⟩ := List.any_eq_true.mp any
      rw [ConstValue.same_of_hasType (typed c' mem' w label') discrete] at same
      rw [unique c' mem' (same ▸ label')]
  rw [caseFor?, found]
  rfl

theorem caseFor?_of_no_label {type : ConstType} (discrete : type.isDiscrete = true)
    (typed : ∀ c ∈ u.cases, ∀ v ∈ c.labels, v.HasType type)
    (unlabelled : ∀ c ∈ u.cases, v ∉ c.labels) : u.caseFor? v = u.defaultCase? := by
  have none : u.cases.find? (fun c => c.labels.any (·.same v)) = none := by
    refine List.find?_eq_none.mpr fun c mem any => ?_
    obtain ⟨w, label, same⟩ := List.any_eq_true.mp any
    rw [ConstValue.same_of_hasType (typed c mem w label) discrete] at same
    exact unlabelled c mem (same ▸ label)
  rw [caseFor?, none]
  rfl

theorem defaultCase?_eq_some_iff (default : (u.cases.filter (·.isDefault)).length ≤ 1)
    (c : CaseLayout) : u.defaultCase? = some c ↔ c ∈ u.cases ∧ c.isDefault = true := by
  rw [defaultCase?, ← List.head?_filter, ← List.mem_filter]
  cases found : u.cases.filter (·.isDefault) with
  | nil => simp
  | cons first rest =>
    rw [found, List.length_cons] at default
    have none : rest = [] := List.eq_nil_of_length_eq_zero (by omega)
    rw [none, List.head?_cons, Option.some_inj, List.mem_singleton, eq_comm]

/-- Cases with distinct labels of one discrete type, and one default at most. -/
theorem wellLabelled {t : SymbolTable} {m : TypeModel} {type : ConstType}
    (discriminates : (m.unalias u.discriminant).Discriminates t type)
    (discrete : type.isDiscrete = true) (typed : ∀ c ∈ u.cases, ∀ v ∈ c.labels, v.HasType type)
    (distinct : (u.cases.flatMap (·.labels)).Nodup)
    (default : (u.cases.filter (·.isDefault)).length ≤ 1) : u.WellLabelled t m where
  typed := ⟨type, discriminates, typed⟩
  distinct := distinct
  default := default
  selects c mem v label := by
    have unique (c' : CaseLayout) (mem' : c' ∈ u.cases) (label' : v ∈ c'.labels) : c' = c := by
      have : Std.Symm (Function.onFun List.Disjoint fun c : CaseLayout => c.labels) :=
        ⟨fun _ _ apart _ mem mem' => apart mem' mem⟩
      by_contra other
      exact (List.nodup_flatMap.mp distinct).2.forall mem' mem other label' label
    exact ⟨caseFor?_eq_some discrete typed mem label unique, unique⟩
  otherwise v unlabelled c := by
    rw [caseFor?_of_no_label discrete typed unlabelled, defaultCase?_eq_some_iff default]

end UnionLayout

/-- The labels of a case are values of the type that its union is switched on. -/
theorem hasType_of_labelsOf {type : ConstType} {ls : List CaseLabel}
    (labelled : LabelsOf (some type) ls) : ∀ v ∈ labels ls, v.HasType type := by
  intro v mem
  obtain ⟨l, inside, value⟩ := List.mem_filterMap.mp mem
  cases l with
  | value e =>
    obtain ⟨typed, eq, holds⟩ := labelled type rfl e inside
    dsimp only at value
    rw [eq, Option.map_some, Option.some_inj] at value
    rw [← value]
    exact holds
  | default _ => cases value

namespace Clean

variable {parsed s : Specification} {t : SymbolTable}

theorem wellLabelled_of_mem (clean : Clean parsed s t) {u : UnionType TypeSpec}
    (mem : Laid.union u ∈ s.laid) :
    UnionLayout.WellLabelled t (buildModel s t)
      ⟨typeOf t u.discriminant.type, u.cases.map (caseOf t)⟩ := by
  obtain ⟨y, -, bound⟩ := exists_of_forall₂ clean.bound _ mem
  obtain ⟨-, -, admits, distinct⟩ := clean.checked _ mem
  have known := clean.allSettled mem
  cases y with
  | union _ =>
    obtain ⟨settled, -, labelled⟩ := bound
    obtain ⟨type, eq⟩ := Option.isSome_iff_exists.mp (admits (isUnbound_of_settled settled)).2
    rw [eq] at labelled
    obtain ⟨constants, discrete⟩ := Option.filter_eq_some_iff.mp eq
    have inside : u.discriminant.type.declarations ⊆ (Laid.union u).declarations := by
      obtain ⟨name, ⟨as, type, switchSpan⟩, cases, span⟩ := u
      rw [Laid.declarations, TypeSpec.declarations]
      exact List.subset_cons_of_subset _ (List.subset_append_left _ _)
    obtain ⟨ids, last, leads, discriminates⟩ :=
      clean.leads (known.mono inside).inPlace constants discrete
    refine UnionLayout.wellLabelled (leads.unalias ▸ discriminates) discrete ?_ ?_ ?_
    · intro c mem
      obtain ⟨c, inside, rfl⟩ := List.mem_map.mp mem
      exact hasType_of_labelsOf (labelled c inside)
    · rw [labels_flatMap]
      exact distinct.values
    · have one := distinct.default
      rw [Option.toList_none, List.length_nil, Nat.zero_add] at one
      exact Nat.le_trans (length_defaults t u.cases) one
  | _ => exact bound.elim

/-- The unions in the model of a clean unit are well labelled. -/
theorem wellLabelled (clean : Clean parsed s t) {e : Entry} (mem : e ∈ (buildModel s t).entries)
    {u : UnionLayout} (union : e.kind = .union u) : u.WellLabelled t (buildModel s t) := by
  rcases describes_of_mem mem with ⟨x, inside, entry⟩ | ⟨-, kind⟩
  · have describes := entry.describes
    rw [union] at describes
    cases x with
    | union u' =>
      cases describes
      exact clean.wellLabelled_of_mem inside
    | bitset _ => obtain ⟨_, eq⟩ := describes; cases eq
    | const _ => obtain ⟨_, _, eq⟩ := describes; cases eq
    | closed _ _ => obtain ⟨_, eq⟩ := describes; cases eq
    | _ => cases describes
  · rw [union] at kind
    cases kind

end Clean

end Idl
