import Idl.Proofs.Binding.Trace
import Idl.Proofs.Scope.Called

/-!
The symbols of a unit form a tree of scopes: the parent of a symbol is numbered before it, so that
the way outward ends at the global scope, and a scope holds nothing but its own symbols and the
enumerators of its enums. Every operation on a table keeps this up, and binding leaves the tree
alone. Main statement: `scopeTree_buildScopes`.
-/

set_option autoImplicit false

namespace Idl

/-- The scope may hold the symbol under the name: the symbol has that name, and the scope is around
it or, of an enumerator, around its enum. -/
structure Holds (t : SymbolTable) (scope : SymbolId) (name : String) (id : SymbolId) : Prop where
  has : HasName t id name
  stands : (t.symbol id).parent = some scope ∨ ∃ enum ordinal,
    t.kind id = .enumerator enum ordinal ∧ (t.symbol id).parent = some enum ∧
      t.kind enum = .enum ∧ (t.symbol enum).parent = some scope

/-- The symbols of a table form a tree. -/
structure ScopeTree (t : SymbolTable) : Prop where
  nonempty : 0 < t.size
  root : (t.symbol SymbolTable.rootId).place = ("", .root, none)
  parents : ∀ id < t.size, id ≠ SymbolTable.rootId →
    ∃ parent < id, (t.symbol id).parent = some parent
  members : ∀ scope, ∀ m ∈ (t.symbol scope).members, Holds t scope m.1 m.2
  distinct : ∀ scope, ((t.symbol scope).members.map (·.1)).Nodup
  enumerators : ∀ id enum ordinal, t.kind id = .enumerator enum ordinal →
    (t.symbol id).parent = some enum ∧ t.kind enum = .enum
  flags : ∀ id bitmask index, t.kind id = .bitValue bitmask index →
    (t.symbol id).parent = some bitmask
  redeclared : ∀ r ∈ t.redeclarations, r.scope < t.size ∧ (t.member? r.scope r.name).isSome

/-- The way outward from a symbol goes from each scope to its parent, and ends at the global
scope. -/
structure EndsAtRoot (t : SymbolTable) (id : SymbolId) : Prop where
  starts : (t.chain id).head? = some id
  rises : (t.chain id).IsChain fun inner outer => (t.symbol inner).parent = some outer
  ends : (t.chain id).getLast? = some SymbolTable.rootId

namespace SymbolTable

variable (t : SymbolTable)

/-- The symbols are numbered in order. -/
theorem toList_getElem? {id : SymbolId} (used : id < t.size) :
    t.toList[id]? = some (id, t.symbol id) := by
  have found : t.symbols[id]? = some t.symbols[id] := Array.getElem?_eq_getElem used
  simp [toList, symbol, found]

/-- A name that a scope holds is one of its members. -/
theorem mem_of_member? {scope id : SymbolId} {name : String}
    (known : t.member? scope name = some id) : (name, id) ∈ (t.symbol scope).members := by
  obtain ⟨front, back, split, -⟩ := List.lookup_eq_some_iff.mp known
  rw [split]
  exact List.mem_append_right _ (List.mem_cons_self ..)

/-- A name that a scope does not hold is the name of no member. -/
theorem notMem_of_member? {scope : SymbolId} {name : String} (free : t.member? scope name = none) :
    name ∉ (t.symbol scope).members.map (·.1) := by
  rw [member?, List.lookup_eq_none_iff] at free
  rintro mem
  obtain ⟨m, inside, rfl⟩ := List.mem_map.mp mem
  simpa using free m inside

end SymbolTable

theorem Holds.widens {t u : SymbolTable} {scope id : SymbolId} {name : String}
    (holds : Holds t scope name id) (widens : Widens t u) : Holds u scope name id := by
  have used := holds.has.used
  refine ⟨holds.has.widens widens, ?_⟩
  rcases holds.stands with parent | ⟨enum, ordinal, kind, parent, type, around⟩
  · exact .inl ((widens.parent used).trans parent)
  · have inside : enum < t.size := t.lt_size_of_kind_ne_root (by rw [type]; decide)
    exact .inr ⟨enum, ordinal, (widens.kind used).trans kind, (widens.parent used).trans parent,
      (widens.kind inside).trans type, (widens.parent inside).trans around⟩

theorem SymbolTable.members_empty (scope : SymbolId) :
    (SymbolTable.empty.symbol scope).members = [] := by
  rcases scope with _ | scope
  · rfl
  · rw [symbol_of_size_le _ (by simp [empty, size])]
    rfl

theorem SymbolTable.kind_empty (id : SymbolId) : SymbolTable.empty.kind id = .root := by
  rcases id with _ | id
  · rfl
  · exact kind_of_size_le _ (by simp [empty, size])

theorem scopeTree_empty : ScopeTree .empty where
  nonempty := Nat.zero_lt_one
  root := rfl
  parents id used ne := absurd (Nat.lt_one_iff.mp used) ne
  members scope m mem := by
    rw [SymbolTable.members_empty] at mem
    cases mem
  distinct scope := by
    rw [SymbolTable.members_empty]
    exact List.nodup_nil
  enumerators id enum ordinal kind := by cases (SymbolTable.kind_empty id).symm.trans kind
  flags id bitmask index kind := by cases (SymbolTable.kind_empty id).symm.trans kind
  redeclared r mem := by cases mem

/-- A symbol of the kind may be entered in the scope: a listed one only in its owner. -/
structure SymbolKind.EntersIn (t : SymbolTable) (scope : SymbolId) (kind : SymbolKind) : Prop where
  enumerator : ∀ enum ordinal, kind = .enumerator enum ordinal → enum = scope ∧ t.kind enum = .enum
  flag : ∀ bitmask index, kind = .bitValue bitmask index → bitmask = scope

theorem SymbolKind.FitsIn.entersIn {scope : SymbolId} {kind : SymbolKind}
    (fits : kind.FitsIn scope) (t : SymbolTable) : kind.EntersIn t scope := by
  constructor
  · rintro enum ordinal rfl
    exact fits.elim
  · rintro bitmask index rfl
    exact fits

theorem SymbolKind.fitsIn_ofForward (scope : SymbolId) (kind : ForwardKind) :
    (SymbolKind.ofForward kind).FitsIn scope := by
  cases kind <;> trivial

namespace ScopeTree

variable {t u : SymbolTable} {scope id : SymbolId} {name : Ident}

/-- What any change preserves that leaves symbols in their places, and members. -/
theorem congr (tree : ScopeTree t) (size : u.size = t.size)
    (places : ∀ i, (u.symbol i).place = (t.symbol i).place)
    (members : ∀ i, (u.symbol i).members = (t.symbol i).members)
    (redeclarations : u.redeclarations = t.redeclarations) : ScopeTree u := by
  have kinds (i : SymbolId) : u.kind i = t.kind i := congrArg (fun place => place.2.1) (places i)
  have parents (i : SymbolId) : (u.symbol i).parent = (t.symbol i).parent :=
    congrArg (fun place => place.2.2) (places i)
  have known (i : SymbolId) (name : String) : u.member? i name = t.member? i name :=
    congrArg (List.lookup name) (members i)
  have widens : Widens t u := ⟨Nat.le_of_eq size.symm, fun i _ => places i,
    fun i name id found => (known i name).trans found⟩
  constructor
  case nonempty => exact size ▸ tree.nonempty
  case root => exact (places _).trans tree.root
  case parents =>
    intro i used ne
    rw [parents]
    exact tree.parents i (size ▸ used) ne
  case members =>
    intro scope m mem
    rw [members] at mem
    exact (tree.members scope m mem).widens widens
  case distinct =>
    intro scope
    rw [members]
    exact tree.distinct scope
  case enumerators =>
    intro i enum ordinal kind
    rw [kinds] at kind
    rw [parents, kinds]
    exact tree.enumerators i enum ordinal kind
  case flags =>
    intro i bitmask index kind
    rw [kinds] at kind
    rw [parents]
    exact tree.flags i bitmask index kind
  case redeclared =>
    intro r mem
    rw [redeclarations] at mem
    rw [size, known]
    exact tree.redeclared r mem

theorem modify (tree : ScopeTree t) (id : SymbolId) (f : Symbol → Symbol)
    (place : ∀ s, (f s).place = s.place) (members : ∀ s, (f s).members = s.members) :
    ScopeTree (t.modify id f) :=
  tree.congr (t.size_modify id f) (fun i => t.modify_aspect Symbol.place id i f place)
    (fun i => t.modify_aspect Symbol.members id i f members) rfl

theorem setConstant (tree : ScopeTree t) (id : SymbolId) (slot : ConstSlot) :
    ScopeTree (t.setConstant id slot) :=
  tree.modify id _ (fun _ => rfl) fun _ => rfl

theorem bindSpan (tree : ScopeTree t) (span : Span) (id : SymbolId) :
    ScopeTree (t.bindSpan span id) :=
  tree.congr rfl (fun _ => rfl) (fun _ => rfl) rfl

/-- Binding leaves the tree alone. -/
theorem sameFrame (tree : ScopeTree t) (same : SameFrame t u) : ScopeTree u :=
  tree.congr same.size (same.aspect Symbol.place fun _ => rfl)
    (same.aspect Symbol.members fun _ => rfl) same.redeclarations

/-- A name is recorded as declared twice in a scope that holds it. -/
theorem redeclare (tree : ScopeTree t) (previous : SymbolId) (inside : scope < t.size)
    (known : (t.member? scope name.name).isSome) : ScopeTree (t.redeclare scope name previous) where
  nonempty := tree.nonempty
  root := tree.root
  parents := tree.parents
  members scope m mem :=
    (tree.members scope m mem).widens (Widens.redeclare t _ name previous)
  distinct := tree.distinct
  enumerators := tree.enumerators
  flags := tree.flags
  redeclared r mem := by
    rcases List.mem_append.mp mem with old | new
    · exact tree.redeclared r old
    · rw [List.mem_singleton.mp new]
      exact ⟨inside, known⟩

/-- A symbol that nothing leads to yet stands in a scope in use. -/
theorem addDetached (tree : ScopeTree t) {kind : SymbolKind} (inside : scope < t.size)
    (enters : kind.EntersIn t scope) : ScopeTree (t.addDetached scope name kind).2 := by
  have widens := Widens.addDetached t scope name kind
  have new : (t.addDetached scope name kind).2.symbol t.size =
      Symbol.fresh name.name kind (some scope) name.span :=
    (t.symbol_addDetached scope t.size name kind).trans (if_pos rfl)
  have old {i : SymbolId} (ne : i ≠ t.size) :
      (t.addDetached scope name kind).2.symbol i = t.symbol i :=
    (t.symbol_addDetached scope i name kind).trans (if_neg ne)
  have members (i : SymbolId) :
      ((t.addDetached scope name kind).2.symbol i).members = (t.symbol i).members :=
    t.addDetached_aspect Symbol.members scope i name kind rfl
  constructor
  case nonempty => exact widens.lt_size tree.nonempty
  case root => exact (widens.places _ tree.nonempty).trans tree.root
  case parents =>
    intro i used ne
    by_cases fresh : i = t.size
    · subst fresh
      exact ⟨scope, inside, congrArg Symbol.parent new⟩
    · rw [old fresh]
      rw [t.size_addDetached] at used
      exact tree.parents i (Nat.lt_of_le_of_ne (Nat.le_of_lt_succ used) fresh) ne
  case members =>
    intro i m mem
    rw [members] at mem
    exact (tree.members i m mem).widens widens
  case distinct =>
    intro i
    rw [members]
    exact tree.distinct i
  case enumerators =>
    intro i enum ordinal entered
    by_cases fresh : i = t.size
    · subst fresh
      rw [SymbolTable.kind, new] at entered
      obtain ⟨rfl, type⟩ := enters.enumerator enum ordinal entered
      exact ⟨congrArg Symbol.parent new, (widens.kind inside).trans type⟩
    · rw [SymbolTable.kind, old fresh] at entered
      obtain ⟨parent, type⟩ := tree.enumerators i enum ordinal entered
      rw [old fresh]
      exact ⟨parent, (widens.kind (t.lt_size_of_kind_ne_root (by rw [type]; decide))).trans type⟩
  case flags =>
    intro i bitmask index entered
    by_cases fresh : i = t.size
    · subst fresh
      rw [SymbolTable.kind, new] at entered
      rw [enters.flag bitmask index entered]
      exact congrArg Symbol.parent new
    · rw [SymbolTable.kind, old fresh] at entered
      rw [old fresh]
      exact tree.flags i bitmask index entered
  case redeclared =>
    intro r mem
    rw [SymbolTable.member?_addDetached]
    obtain ⟨used, known⟩ := tree.redeclared r mem
    exact ⟨widens.lt_size used, known⟩

/-- A scope that does not hold a name takes it in. -/
theorem addMember (tree : ScopeTree t) {name : String} (inside : scope < t.size)
    (free : t.member? scope name = none) (holds : Holds t scope name id) :
    ScopeTree (t.addMember scope name id) := by
  have widens := Widens.addMember t name id inside
  have place (i : SymbolId) : ((t.addMember scope name id).symbol i).place = (t.symbol i).place :=
    t.modify_aspect Symbol.place scope i _ fun _ => rfl
  have parent (i : SymbolId) :
      ((t.addMember scope name id).symbol i).parent = (t.symbol i).parent :=
    congrArg (fun place => place.2.2) (place i)
  have kind (i : SymbolId) : (t.addMember scope name id).kind i = t.kind i :=
    congrArg (fun place => place.2.1) (place i)
  have members (i : SymbolId) : ((t.addMember scope name id).symbol i).members =
      (t.symbol i).members ++ if i = scope then [(name, id)] else [] := by
    rw [SymbolTable.addMember, t.symbol_modify]
    by_cases here : i = scope
    · simp [here, inside]
    · simp [here]
  have size : (t.addMember scope name id).size = t.size := t.size_modify _ _
  constructor
  case nonempty => exact widens.lt_size tree.nonempty
  case root => exact (place _).trans tree.root
  case parents =>
    intro i used ne
    rw [parent]
    exact tree.parents i (size ▸ used) ne
  case members =>
    intro i m mem
    rw [members] at mem
    rcases List.mem_append.mp mem with old | new
    · exact (tree.members i m old).widens widens
    · split at new
      · next here =>
        rw [here, List.mem_singleton.mp new]
        exact holds.widens widens
      · cases new
  case distinct =>
    intro i
    rw [members, List.map_append]
    split
    · next here =>
      subst here
      have fresh := (List.nodup_concat _ name).mpr ⟨t.notMem_of_member? free, tree.distinct i⟩
      rwa [List.concat_eq_append] at fresh
    · simpa using tree.distinct i
  case enumerators =>
    intro i enum ordinal entered
    rw [kind] at entered
    rw [parent, kind]
    exact tree.enumerators i enum ordinal entered
  case flags =>
    intro i bitmask index entered
    rw [kind] at entered
    rw [parent]
    exact tree.flags i bitmask index entered
  case redeclared =>
    intro r mem
    obtain ⟨used, known⟩ := tree.redeclared r mem
    exact ⟨widens.lt_size used, t.member?_addMember_isSome scope id name r.scope r.name known⟩

theorem holds_addDetached (t : SymbolTable) (scope : SymbolId) (name : Ident) (kind : SymbolKind) :
    Holds (t.addDetached scope name kind).2 scope name.name t.size where
  has := Called.hasName_addDetached t scope name kind
  stands := .inl (congrArg Symbol.parent
    ((t.symbol_addDetached scope t.size name kind).trans (if_pos rfl)))

theorem add (tree : ScopeTree t) {kind : SymbolKind} (inside : scope < t.size)
    (enters : kind.EntersIn t scope) (free : t.member? scope name.name = none) :
    ScopeTree (t.add scope name kind).2 :=
  (tree.addDetached inside enters).addMember ((Widens.addDetached t scope name kind).lt_size inside)
    ((t.member?_addDetached scope name kind scope name.name).trans free)
    (holds_addDetached t scope name kind)

/-- The scope around an enum may hold the enumerators of the enum. -/
theorem holds_enumerator (t : SymbolTable) {enum : SymbolId} (ordinal : Nat)
    (used : enum < t.size) (kind : t.kind enum = .enum)
    (parent : (t.symbol enum).parent = some scope) :
    Holds (t.add enum name (.enumerator enum ordinal)).2 scope name.name t.size := by
  have widens := Widens.add t name (.enumerator enum ordinal) used
  have place := t.place_add enum name (.enumerator enum ordinal)
  have size : (t.add enum name (.enumerator enum ordinal)).2.size = t.size + 1 :=
    (SymbolTable.size_modify _ _ _).trans (t.size_addDetached _ _ _)
  constructor
  · exact ⟨size ▸ Nat.lt_succ_self _, congrArg (fun place => place.1) place⟩
  · exact .inr ⟨enum, ordinal, t.kind_add enum name _, congrArg (fun place => place.2.2) place,
      (widens.kind used).trans kind, (widens.parent used).trans parent⟩

/-! Each operation of the builder. -/

variable {b : ScopeBuilder}

theorem addDuplicate (tree : ScopeTree b.table) {kind : SymbolKind} {previous : SymbolId}
    (inside : scope < b.table.size) (enters : kind.EntersIn b.table scope)
    (known : b.table.member? scope name.name = some previous) :
    ScopeTree (b.addDuplicate scope name kind previous).2.table :=
  (tree.redeclare previous inside (Option.isSome_of_eq_some known)).addDetached inside
    ⟨enters.enumerator, enters.flag⟩

theorem declare (tree : ScopeTree b.table) {kind : SymbolKind} (inside : scope < b.table.size)
    (enters : kind.EntersIn b.table scope) : ScopeTree (b.declare scope name kind).2.table := by
  rw [ScopeBuilder.declare]
  split
  · next free => exact tree.add inside enters free
  · next previous known => exact tree.addDuplicate inside enters known

theorem openModule (tree : ScopeTree b.table) (inside : scope < b.table.size) :
    ScopeTree (b.openModule scope name).2.table := by
  have fits : SymbolKind.module.FitsIn scope := trivial
  have enters := fits.entersIn b.table
  rw [ScopeBuilder.openModule]
  split
  · next free => exact tree.add inside enters free
  · next existing known =>
    split
    · exact tree.bindSpan name.span existing
    · exact tree.addDuplicate inside enters known

theorem complete (tree : ScopeTree b.table) (kind : ForwardKind) (inside : scope < b.table.size) :
    ScopeTree (b.complete scope name kind).2.table := by
  have enters := (SymbolKind.fitsIn_ofForward scope kind).entersIn b.table
  simp only [ScopeBuilder.complete]
  split
  · next free => exact tree.add inside enters free
  · next existing known =>
    split
    · exact tree.addDuplicate inside enters known
    · split
      · exact tree.addDetached inside enters
      · exact (tree.modify existing (fun s => { s with isForward := false, span := name.span })
          (fun _ => rfl) fun _ => rfl).bindSpan name.span existing

theorem announce (tree : ScopeTree b.table) {d : ForwardDecl} (inside : scope < b.table.size) :
    ScopeTree (b.announce scope d).table := by
  have enters := (SymbolKind.fitsIn_ofForward scope d.kind).entersIn b.table
  simp only [ScopeBuilder.announce]
  split
  · next free => exact (tree.add inside enters free).modify _ _ (fun _ => rfl) fun _ => rfl
  · next existing known =>
    split
    · exact tree.bindSpan d.name.span existing
    · exact tree.redeclare existing inside (Option.isSome_of_eq_some known)

/-- An enumerator stands in its enum, and the scope around the enum holds it as well. -/
theorem enumerator (tree : ScopeTree b.table) {enum : SymbolId} (ordinal : Nat)
    (inside : scope < b.table.size) (used : enum < b.table.size)
    (kind : b.table.kind enum = .enum) (parent : (b.table.symbol enum).parent = some scope) :
    ScopeTree (ScopeBuilder.enumerator scope enum b name ordinal).table := by
  have enters : (SymbolKind.enumerator enum ordinal).EntersIn b.table enum :=
    ⟨fun _ _ same => by cases same; exact ⟨rfl, kind⟩, fun _ _ same => by cases same⟩
  simp only [ScopeBuilder.enumerator]
  split
  · next previous known => exact (tree.addDuplicate used enters known).setConstant _ _
  · next free =>
    have added := Widens.add b.table name (.enumerator enum ordinal) used
    have valued := ScopeBuilder.widens_setConstant
      (b.table.add enum name (.enumerator enum ordinal)).2 b.table.size
      (.value ⟨.enum enum, .enumerator enum ordinal name.name⟩)
    have entered := (tree.add used enters free).setConstant b.table.size
      (.value ⟨.enum enum, .enumerator enum ordinal name.name⟩)
    have still := valued.lt_size (added.lt_size inside)
    split
    · next previous known =>
      exact entered.redeclare previous still (Option.isSome_of_eq_some known)
    · next around =>
      exact entered.addMember still around
        ((holds_enumerator b.table ordinal used kind parent).widens valued)

end ScopeTree

section

variable {P : Ident → Prop} {b b' : ScopeBuilder}

theorem Move.scopeTree (move : Move P b b') (tree : ScopeTree b.table) : ScopeTree b'.table := by
  cases move with
  | declare kind inside _ fits => exact tree.declare inside (fits.entersIn _)
  | openModule inside _ => exact tree.openModule inside
  | complete kind inside _ => exact tree.complete kind inside
  | announce inside _ => exact tree.announce inside
  | enumerator ordinal inside used kind parent _ =>
    exact tree.enumerator ordinal inside used kind parent
  | setConstant id slot => exact tree.setConstant id slot

theorem Moves.scopeTree (moves : Moves P b b') (tree : ScopeTree b.table) :
    ScopeTree b'.table := by
  induction moves with
  | refl => exact tree
  | tail _ move ih => exact move.scopeTree ih

end

theorem ScopeTree.endsAtRoot {t : SymbolTable} (tree : ScopeTree t) {id : SymbolId}
    (used : id < t.size) : EndsAtRoot t id := by
  induction id using Nat.strongRecOn with
  | _ id ih =>
    by_cases top : id = SymbolTable.rootId
    · have none : (t.symbol id).parent = none :=
        top ▸ congrArg (fun place => place.2.2) tree.root
      have alone : t.chain id = [id] := by
        rw [SymbolTable.chain, none]
      exact ⟨by rw [alone]; rfl, by rw [alone]; exact .singleton _, by rw [alone, top]; rfl⟩
    · obtain ⟨parent, smaller, above⟩ := tree.parents id used top
      have chain : t.chain id = id :: t.chain parent := by
        rw [SymbolTable.chain, above]
        exact if_pos smaller
      have up := ih parent smaller (Nat.lt_trans smaller used)
      obtain ⟨around, onward⟩ := List.head?_eq_some_iff.mp up.starts
      refine ⟨by rw [chain]; rfl, ?_, ?_⟩
      · rw [chain, onward]
        exact .cons_cons above (onward ▸ up.rises)
      · rw [chain, List.getLast?_cons, up.ends]
        rfl

/-- The symbols of a unit are numbered in order, and form a tree in which every way outward ends at
the global scope. Binding changes the values of constants and the types behind typedefs, and
nothing else of it, so the tree stays. -/
theorem scopeTree_buildScopes (s : Specification) :
    let t := (buildScopes s).table
    ScopeTree t ∧ (∀ id < t.size, t.toList[id]? = some (id, t.symbol id) ∧ EndsAtRoot t id) ∧
      SameFrame t (bindUnit s t).table ∧ ScopeTree (bindUnit s t).table := by
  intro t
  have moves : Moves (fun _ => True) ⟨.empty, []⟩ (buildScopes s) :=
    moves_buildScopes s fun _ _ => trivial
  have tree : ScopeTree t := moves.scopeTree scopeTree_empty
  have frame : SameFrame t (bindUnit s t).table := (settling_bindUnit s t).frame
  exact ⟨tree, fun id used => ⟨t.toList_getElem? used, tree.endsAtRoot used⟩, frame,
    tree.sameFrame frame⟩

end Idl
