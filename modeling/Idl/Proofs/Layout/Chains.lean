import Idl.Proofs.Layout.Document
import Mathlib

/-!
Chains of bases and of typedefs. Nothing keeps definitions from leading back to themselves, so that
a chain in the model ends just when the definitions behind it do not go round in a circle. Main
statement: `chains_end_iff`.
-/

set_option autoImplicit false

namespace Idl

section Steps

variable {α : Type}

/-- What `n` steps lead to, if there are as many. -/
def afterSteps (next : α → Option α) : (n : Nat) → α → Option α
  | 0, a => some a
  | n + 1, a => (next a).bind (afterSteps next n)

/-- Only finitely many steps can be taken. -/
def Ends (next : α → Option α) (a : α) : Prop := ∃ n, afterSteps next n a = none

/-- There is a way to something that leads back to itself. -/
def Circles (r : α → α → Prop) (a : α) : Prop :=
  ∃ b, Relation.ReflTransGen r a b ∧ Relation.TransGen r b b

variable {next : α → Option α} {a b : α} {m n : Nat}

theorem afterSteps_add (m n : Nat) (a : α) :
    afterSteps next (m + n) a = (afterSteps next m a).bind (afterSteps next n) := by
  induction m generalizing a with
  | zero => rw [Nat.zero_add]; rfl
  | succ m ih =>
    have shift : m + 1 + n = (m + n) + 1 := by omega
    rw [shift, afterSteps, afterSteps, Option.bind_assoc]
    congr 1
    funext b
    exact ih b

theorem afterSteps_isSome_of_le (le : m ≤ n) (some : (afterSteps next n a).isSome = true) :
    (afterSteps next m a).isSome = true := by
  obtain ⟨d, rfl⟩ := Nat.exists_eq_add_of_le le
  rw [afterSteps_add] at some
  cases reached : afterSteps next m a with
  | none => rw [reached] at some; cases some
  | some _ => rfl

theorem reflTransGen_of_afterSteps (reached : afterSteps next n a = some b) :
    Relation.ReflTransGen (next · = some ·) a b := by
  induction n generalizing a with
  | zero =>
    obtain rfl := Option.some_inj.mp reached
    exact .refl
  | succ n ih =>
    obtain ⟨c, step, rest⟩ := Option.bind_eq_some_iff.mp reached
    exact .head step (ih rest)

/-- Passing one thing twice is going in a circle. -/
theorem circles_of_again (less : m < n) (first : afterSteps next m a = some b)
    (again : afterSteps next n a = some b) : Circles (next · = some ·) a := by
  obtain ⟨d, rfl⟩ := Nat.exists_eq_add_of_lt less
  rw [Nat.add_assoc, afterSteps_add, first, Option.bind_some] at again
  obtain ⟨c, step, rest⟩ := Option.bind_eq_some_iff.mp again
  exact ⟨b, reflTransGen_of_afterSteps first, .head' step (reflTransGen_of_afterSteps rest)⟩

/-- From a circle there is always one more step, and it stays on the way. -/
theorem Circles.step (circles : Circles (next · = some ·) a) :
    ∃ b, next a = some b ∧ Circles (next · = some ·) b := by
  obtain ⟨c, path, circle⟩ := circles
  rcases path.cases_head with rfl | ⟨b, step, rest⟩
  · obtain ⟨b, step, back⟩ := Relation.TransGen.head'_iff.mp circle
    exact ⟨b, step, a, back, circle⟩
  · exact ⟨b, step, c, rest, circle⟩

theorem Circles.afterSteps (circles : Circles (next · = some ·) a) (n : Nat) :
    ∃ b, Idl.afterSteps next n a = some b ∧ Circles (next · = some ·) b := by
  induction n generalizing a with
  | zero => exact ⟨a, rfl, circles⟩
  | succ n ih =>
    obtain ⟨b, step, circles⟩ := circles.step
    rw [Idl.afterSteps, step, Option.bind_some]
    exact ih circles

theorem Circles.not_ends (circles : Circles (next · = some ·) a) : ¬ Ends next a := by
  rintro ⟨n, none⟩
  obtain ⟨b, some, -⟩ := circles.afterSteps n
  rw [none] at some
  cases some

/-- Steps lead on from the things in `domain` only, so that more steps than there are of them pass
one of them twice. -/
theorem circles_of_many {domain : List α} (known : ∀ a b, next a = some b → a ∈ domain)
    (many : (Idl.afterSteps next (domain.length + 1) a).isSome = true) :
    Circles (next · = some ·) a := by
  classical
  let visit (i : Nat) : α := (Idl.afterSteps next i a).getD a
  have visited (i : Nat) (le : i ≤ domain.length) : afterSteps next i a = some (visit i) := by
    have some := afterSteps_isSome_of_le (Nat.le_succ_of_le le) many
    obtain ⟨b, reached⟩ := Option.isSome_iff_exists.mp some
    simp [visit, reached]
  have inside : ∀ i ∈ Finset.range (domain.length + 1), visit i ∈ domain.toFinset := by
    intro i mem
    have le : i ≤ domain.length := by
      have := Finset.mem_range.mp mem
      omega
    have some : (afterSteps next (i + 1) a).isSome = true :=
      afterSteps_isSome_of_le (by omega) many
    rw [afterSteps_add, visited i le, Option.bind_some] at some
    obtain ⟨b, reached⟩ := Option.isSome_iff_exists.mp some
    obtain ⟨c, step, -⟩ := Option.bind_eq_some_iff.mp reached
    exact List.mem_toFinset.mpr (known _ c step)
  have few : domain.toFinset.card < (Finset.range (domain.length + 1)).card := by
    have le := domain.toFinset_card_le
    rw [Finset.card_range]
    omega
  obtain ⟨i, mem, j, mem', other, same⟩ :=
    Finset.exists_ne_map_eq_of_card_lt_of_maps_to few inside
  rw [Finset.mem_range] at mem mem'
  have first := visited i (by omega)
  have second := visited j (by omega)
  rw [← same] at second
  rcases Nat.lt_or_gt_of_ne other with less | less
  · exact circles_of_again less first second
  · exact circles_of_again less second first

/-- The steps end within the size of the domain, or go in a circle and never end. -/
theorem ends_iff_not_circles {domain : List α} (known : ∀ a b, next a = some b → a ∈ domain) :
    Ends next a ↔ ¬ Circles (next · = some ·) a := by
  constructor
  · exact fun ends circles => circles.not_ends ends
  · intro straight
    refine ⟨domain.length + 1, Option.not_isSome_iff_eq_none.mp fun many => ?_⟩
    exact straight (circles_of_many known many)

theorem Ends.within {domain : List α} (known : ∀ a b, next a = some b → a ∈ domain)
    (ends : Ends next a) : afterSteps next (domain.length + 1) a = none := by
  refine Option.not_isSome_iff_eq_none.mp fun many => ?_
  exact (circles_of_many known many).not_ends ends

end Steps

/-- The base that a layout names. -/
def EntryKind.base? : EntryKind → Option SymbolId
  | .struct layout => layout.base
  | .exception layout => layout.base
  | .bitset layout => layout.base
  | _ => none

namespace TypeModel

variable {m : TypeModel} {id other : SymbolId}

/-- The base of a struct or bitset. -/
def baseOf? (m : TypeModel) (id : SymbolId) : Option SymbolId :=
  (m.get? id).bind (·.kind.base?)

/-- The symbol that a typedef without array dimensions stands for. -/
def aliasOf? (m : TypeModel) (id : SymbolId) : Option SymbolId :=
  match m.behind? id with
  | some (.named other) => some other
  | _ => none

theorem aliasOf?_eq_some_iff : m.aliasOf? id = some other ↔ m.behind? id = some (.named other) := by
  rw [aliasOf?]
  split
  · next found => rw [found, Option.some_inj, Option.some_inj, LayoutType.named.injEq]
  · next none =>
    constructor
    · intro some
      cases some
    · exact fun some => absurd some (none other)

theorem mem_entries_of_behind? {type : LayoutType} (behind : m.behind? id = some type) :
    id ∈ m.entries.map (·.id) := by
  rw [behind?] at behind
  split at behind
  · next found =>
    refine List.mem_map.mpr ⟨_, List.mem_of_find?_eq_some found, ?_⟩
    simpa using List.find?_some found
  · cases behind

theorem mem_entries_of_baseOf? (base : m.baseOf? id = some other) :
    id ∈ m.entries.map (·.id) := by
  obtain ⟨e, found, -⟩ := Option.bind_eq_some_iff.mp base
  refine List.mem_map.mpr ⟨e, List.mem_of_find?_eq_some found, ?_⟩
  simpa using List.find?_some found

/-- Typedefs that end lead somewhere. -/
theorem exists_leads_of_afterSteps {n : Nat} (none : afterSteps m.aliasOf? n id = none) :
    ∃ ids last, m.Leads ids (.named id) last := by
  induction n generalizing id with
  | zero => cases none
  | succ n ih =>
    cases behind : m.behind? id with
    | none =>
      refine ⟨[], .named id, .done fun other same => ?_⟩
      cases same
      exact behind
    | some type =>
      by_cases named : ∃ other, type = .named other
      · obtain ⟨other, rfl⟩ := named
        rw [afterSteps, aliasOf?_eq_some_iff.mpr behind, Option.bind_some] at none
        obtain ⟨ids, last, leads⟩ := ih none
        exact ⟨id :: ids, last, .step behind leads⟩
      · refine ⟨[id], type, .step behind (.done fun other same => ?_)⟩
        exact absurd ⟨other, same⟩ named

theorem Leads.terminal {ids : List SymbolId} {type last : LayoutType}
    (leads : m.Leads ids type last) (same : last = .named id) : m.behind? id = none := by
  induction leads with
  | done terminal => exact terminal id same
  | step _ _ ih => exact ih same

/-- On typedefs without an end, the steps run out. -/
theorem unaliasWithin_of_afterSteps {n : Nat} (reached : afterSteps m.aliasOf? n id = some other) :
    m.unaliasWithin n (.named id) = .named other := by
  induction n generalizing id with
  | zero =>
    obtain rfl := Option.some_inj.mp reached
    rfl
  | succ n ih =>
    obtain ⟨next, step, rest⟩ := Option.bind_eq_some_iff.mp reached
    rw [unaliasWithin_named, aliasOf?_eq_some_iff.mp step]
    exact ih rest

theorem unalias_of_circles (circles : Circles (m.aliasOf? · = some ·) id) :
    ∃ other, m.unalias (.named id) = .named other ∧ (m.behind? other).isSome = true := by
  obtain ⟨other, reached, circles⟩ := circles.afterSteps m.size
  obtain ⟨next, step, -⟩ := circles.step
  refine ⟨other, unaliasWithin_of_afterSteps reached, ?_⟩
  rw [aliasOf?_eq_some_iff.mp step]
  rfl

/-- What stays a typedef without array dimensions goes round in a circle. -/
theorem unalias_named_iff (type : LayoutType) :
    (∃ other, m.unalias type = .named other ∧ (m.behind? other).isSome = true) ↔
      ∃ id, type = .named id ∧ Circles (m.aliasOf? · = some ·) id := by
  constructor
  · rintro ⟨other, unaliased, typedef⟩
    have remains {ids : List SymbolId} {last : LayoutType} (leads : m.Leads ids type last) :
        False := by
      rw [leads.unalias] at unaliased
      rw [leads.terminal unaliased] at typedef
      cases typedef
    by_cases named : ∃ id, type = .named id
    · obtain ⟨id, rfl⟩ := named
      refine ⟨id, rfl, ?_⟩
      by_contra straight
      have known (a b : SymbolId) (step : m.aliasOf? a = some b) : a ∈ m.entries.map (·.id) :=
        mem_entries_of_behind? (aliasOf?_eq_some_iff.mp step)
      obtain ⟨n, none⟩ := (ends_iff_not_circles known).mpr straight
      obtain ⟨ids, last, leads⟩ := exists_leads_of_afterSteps none
      exact remains leads
    · refine (remains (.done fun id same => ?_)).elim
      exact absurd ⟨id, same⟩ named
  · rintro ⟨id, rfl, circles⟩
    exact unalias_of_circles circles

end TypeModel

/-- The base that a declaration is written with. -/
def Laid.base? : Laid → Option SymbolId
  | .struct type => type.base.bind (·.target)
  | .bitset type => type.base.bind (·.target)
  | _ => none

/-- The symbol is that of a struct or bitset which is written with `base` as its base. -/
def DerivesFrom (s : Specification) (t : SymbolTable) (id base : SymbolId) : Prop :=
  ∃ x ∈ s.laid, t.definedAt? x.name.span = some id ∧ x.base? = some base

/-- The symbol is that of a typedef, written without array dimensions, of `other`. -/
def StandsFor (s : Specification) (t : SymbolTable) (id other : SymbolId) : Prop :=
  ∃ type d, Laid.typedef type d ∈ s.laid ∧ d.dims = [] ∧ t.definedAt? d.name.span = some id ∧
    Layout.typeOf t type = .named other

namespace Layout

variable {t : SymbolTable} {x : Laid} {kind : EntryKind}

/-- A layout has the base that its declaration is written with. -/
theorem Describes.base? (describes : Describes t x kind) : kind.base? = x.base? := by
  cases x with
  | bitset b =>
    obtain ⟨offset, rfl⟩ := describes
    rfl
  | const d =>
    obtain ⟨c, -, rfl⟩ := describes
    rfl
  | closed name sort =>
    obtain ⟨noun, rfl⟩ := describes
    rfl
  | _ =>
    cases describes
    rfl

end Layout

namespace Clean

open Layout

variable {parsed s : Specification} {t : SymbolTable} {x : Laid} {id other : SymbolId}

theorem baseOf?_eq_some_iff (clean : Clean parsed s t) :
    (buildModel s t).baseOf? id = some other ↔ DerivesFrom s t id other := by
  constructor
  · intro base
    obtain ⟨e, found, named⟩ := Option.bind_eq_some_iff.mp base
    rcases describes_of_mem (TypeModel.mem_of_get? found) with ⟨x, mem, entry⟩ | ⟨-, kind⟩
    · have place := (SymbolTable.settledAt?_eq_some_iff.mp entry.place).1
      rw [TypeModel.id_of_get? found] at place
      exact ⟨x, mem, place, entry.describes.base? ▸ named⟩
    · rw [kind] at named
      cases named
  · rintro ⟨x, mem, place, named⟩
    obtain ⟨e, found, describes⟩ := clean.get?_of_definedAt? mem place
    rw [TypeModel.baseOf?, found, Option.bind_some, describes.base?, named]

theorem aliasOf?_eq_some_iff (clean : Clean parsed s t) :
    (buildModel s t).aliasOf? id = some other ↔ StandsFor s t id other := by
  rw [TypeModel.aliasOf?_eq_some_iff]
  constructor
  · intro behind
    rw [TypeModel.behind?] at behind
    split at behind
    · next number name layout found =>
      split at behind
      · next plain =>
        rcases describes_of_mem (TypeModel.mem_of_get? found) with ⟨x, mem, entry⟩ | ⟨-, kind⟩
        · obtain ⟨type, d, rfl, rfl⟩ := entry.describes.typedef
          have place := (SymbolTable.settledAt?_eq_some_iff.mp entry.place).1
          rw [TypeModel.id_of_get? found] at place
          have none : d.dims = [] := by simpa [Layout.dims] using plain
          exact ⟨type, d, mem, none, place, Option.some_inj.mp behind⟩
        · cases kind
      · cases behind
    · cases behind
  · rintro ⟨type, d, mem, none, place, named⟩
    obtain ⟨⟨number, name, kind⟩, found, describes⟩ := clean.get?_of_definedAt? mem place
    cases describes
    rw [TypeModel.behind?, found]
    simp [Layout.dims, none, named]

end Clean

namespace Document

/-- The bases of an entry end, after at most as many steps as there are entries, unless the structs
or bitsets they come from go round in a circle; then they never end. A type is left at a typedef
without array dimensions just when the typedefs that it leads to go round in a circle. -/
theorem chains_end_iff (options : ParseOptions) (text : String)
    (ok : (ofText options text).hasErrors = false) :
    (∀ e ∈ (ofText options text).model.entries,
      (Ends (ofText options text).model.baseOf? e.id ↔
        ¬ Circles (DerivesFrom (ofText options text).specification (ofText options text).symbols)
          e.id) ∧
      (Ends (ofText options text).model.baseOf? e.id →
        afterSteps (ofText options text).model.baseOf? ((ofText options text).model.size + 1) e.id =
          none)) ∧
    ∀ type, (∃ id, (ofText options text).model.unalias type = .named id ∧
        ((ofText options text).model.behind? id).isSome = true) ↔
      ∃ id, type = .named id ∧
        Circles (StandsFor (ofText options text).specification (ofText options text).symbols)
          id := by
  have clean := clean_of_unfailed ok
  have bases : ((ofText options text).model.baseOf? · = some ·) =
      DerivesFrom (ofText options text).specification (ofText options text).symbols := by
    funext id other
    exact propext clean.baseOf?_eq_some_iff
  have aliases : ((ofText options text).model.aliasOf? · = some ·) =
      StandsFor (ofText options text).specification (ofText options text).symbols := by
    funext id other
    exact propext clean.aliasOf?_eq_some_iff
  have known (a b : SymbolId) (step : (ofText options text).model.baseOf? a = some b) :
      a ∈ (ofText options text).model.entries.map (·.id) :=
    TypeModel.mem_entries_of_baseOf? step
  constructor
  · intro e _
    constructor
    · rw [← bases]
      exact ends_iff_not_circles known
    · intro ends
      have within := ends.within known
      rwa [List.length_map] at within
  · intro type
    rw [← aliases]
    exact TypeModel.unalias_named_iff type

theorem chains_end_of_bases :
    (ofText {} "struct A : B {}; struct B : C {}; struct C {};").hasErrors = false ∧
      afterSteps (ofText {} "struct A : B {}; struct B : C {}; struct C {};").model.baseOf? 2 1 =
        some 3 ∧
      ¬ Circles (DerivesFrom (ofText {} "struct A : B {}; struct B : C {}; struct C {};"
        ).specification (ofText {} "struct A : B {}; struct B : C {}; struct C {};").symbols) 1 := by
  have ok : (ofText {} "struct A : B {}; struct B : C {}; struct C {};").hasErrors = false := by
    cbv
  have model : (ofText {} "struct A : B {}; struct B : C {}; struct C {};").model =
      ⟨[⟨1, "A", .struct ⟨some 2, []⟩⟩, ⟨2, "B", .struct ⟨some 3, []⟩⟩,
        ⟨3, "C", .struct ⟨none, []⟩⟩]⟩ := by cbv
  have known := (chains_end_iff {} _ ok).1
  rw [model] at known ⊢
  have straight := (known _ (.head _)).1.mp ⟨3, rfl⟩
  exact ⟨ok, rfl, straight⟩

/-- Two structs, two bitsets and two typedefs, each of which stands on the other. -/
def circularText : String :=
  "struct A : B {}; struct B : A {}; bitset P : Q {}; bitset Q : P {}; typedef U T; typedef T U;"

theorem chains_endless_of_circles :
    (ofText {} circularText).hasErrors = false ∧
    (∃ e ∈ (ofText {} circularText).model.entries, (∃ layout, e.kind = .struct layout) ∧
      ¬ Ends (ofText {} circularText).model.baseOf? e.id) ∧
    (∃ e ∈ (ofText {} circularText).model.entries, (∃ layout, e.kind = .bitset layout) ∧
      ¬ Ends (ofText {} circularText).model.baseOf? e.id) ∧
    ∃ e ∈ (ofText {} circularText).model.entries, e.kind = .typedef ⟨.named 6, []⟩ ∧
      (ofText {} circularText).model.unalias (.named 6) = .named 6 ∧
      ((ofText {} circularText).model.behind? 6).isSome = true := by
  have ok : (ofText {} circularText).hasErrors = false := by cbv
  have model : (ofText {} circularText).model =
      ⟨[⟨1, "A", .struct ⟨some 2, []⟩⟩, ⟨2, "B", .struct ⟨some 1, []⟩⟩,
        ⟨3, "P", .bitset ⟨some 4, [], 0⟩⟩, ⟨4, "Q", .bitset ⟨some 3, [], 0⟩⟩,
        ⟨5, "T", .typedef ⟨.named 6, []⟩⟩, ⟨6, "U", .typedef ⟨.named 5, []⟩⟩]⟩ := by cbv
  have endless {m : TypeModel} (id other : SymbolId) (forth : m.baseOf? id = some other)
      (back : m.baseOf? other = some id) : ¬ Ends m.baseOf? id :=
    Circles.not_ends ⟨id, .refl, .head forth (.single back)⟩
  rw [model]
  refine ⟨ok, ⟨_, .head _, ⟨_, rfl⟩, ?_⟩, ⟨_, .tail _ (.tail _ (.head _)), ⟨_, rfl⟩, ?_⟩,
    _, .tail _ (.tail _ (.tail _ (.tail _ (.head _)))), rfl, rfl, rfl⟩
  · exact endless 1 2 rfl rfl
  · exact endless 3 4 rfl rfl

end Document

end Idl
