import Idl.Proofs.Scope.Frame
import Idl.Proofs.Scope.Visits
import Mathlib.Data.List.Nodup

/-!
The names of symbols. A symbol has the name under which its scope holds it, and that of the
identifier that defines it. Main statements: `called_buildScopes` and `Called.name_of_definedAt?`.
-/

set_option autoImplicit false

namespace Idl

/-- The symbol is in use and has the name. -/
structure HasName (t : SymbolTable) (id : SymbolId) (name : String) : Prop where
  used : id < t.size
  name_eq : (t.symbol id).name = name

theorem HasName.widens {t u : SymbolTable} {id : SymbolId} {name : String}
    (has : HasName t id name) (widens : Widens t u) : HasName u id name :=
  ⟨widens.lt_size has.used, (widens.name has.used).trans has.name_eq⟩

/-- Whatever leads to a symbol has its name: members do, and identifiers that define symbols, all
of which satisfy `P`. -/
structure Called (P : Ident → Prop) (t : SymbolTable) : Prop where
  members : ∀ scope name id, t.member? scope name = some id → HasName t id name
  places : ∀ offset id, t.defining.lookup offset = some id →
    ∃ name, P name ∧ name.span.offset = offset ∧ HasName t id name.name

theorem SymbolTable.member?_empty (scope : SymbolId) (name : String) :
    SymbolTable.empty.member? scope name = none := by
  rcases scope with _ | scope
  · rfl
  · rw [member?, symbol_of_size_le _ (by simp [empty, size])]
    rfl

theorem called_empty (P : Ident → Prop) : Called P .empty where
  members scope name id known := by cases (SymbolTable.member?_empty scope name).symm.trans known
  places offset id known := by cases known

namespace Called

variable {P : Ident → Prop} {t u : SymbolTable} {scope id : SymbolId} {name : Ident}

/-- What any change preserves, if all that is new in it leads to symbols of the right names. -/
theorem extend (called : Called P t) (widens : Widens t u)
    (members : ∀ scope name id, u.member? scope name = some id →
      t.member? scope name = some id ∨ HasName u id name)
    (places : ∀ offset id, u.defining.lookup offset = some id →
      t.defining.lookup offset = some id ∨
        ∃ name, P name ∧ name.span.offset = offset ∧ HasName u id name.name) : Called P u where
  members scope name id known := by
    rcases members scope name id known with known | has
    · exact (called.members scope name id known).widens widens
    · exact has
  places offset id known := by
    rcases places offset id known with known | has
    · obtain ⟨name, named, place, has⟩ := called.places offset id known
      exact ⟨name, named, place, has.widens widens⟩
    · exact has

/-- A change of symbols that leaves their names and members. -/
theorem modify (called : Called P t) (id : SymbolId) (f : Symbol → Symbol)
    (place : ∀ s, (f s).place = s.place) (members : ∀ s, (f s).members = s.members) :
    Called P (t.modify id f) := by
  refine called.extend (Widens.modify t id f place members) (fun scope name i known => .inl ?_)
    fun _ _ known => .inl known
  have same := t.modify_aspect Symbol.members id scope f members
  rw [SymbolTable.member?, same] at known
  exact known

theorem redeclare (called : Called P t) (scope : SymbolId) (name : Ident) (previous : SymbolId) :
    Called P (t.redeclare scope name previous) :=
  called.extend (Widens.redeclare t scope name previous) (fun _ _ _ known => .inl known)
    fun _ _ known => .inl known

theorem bindSpan (called : Called P t) (named : P name) (has : HasName t id name.name) :
    Called P (t.bindSpan name.span id) := by
  refine called.extend (Widens.bindSpan t name.span id) (fun _ _ _ known => .inl known) ?_
  intro offset i known
  rw [SymbolTable.bindSpan, List.lookup_cons] at known
  split at known
  · next same =>
    rw [Option.some_inj] at known
    exact .inr ⟨name, named, (beq_iff_eq.mp same).symm,
      known ▸ has.widens (Widens.bindSpan t name.span id)⟩
  · exact .inl known

theorem hasName_addDetached (t : SymbolTable) (scope : SymbolId) (name : Ident)
    (kind : SymbolKind) : HasName (t.addDetached scope name kind).2 t.size name.name where
  used := by
    rw [SymbolTable.size_addDetached]
    exact Nat.lt_succ_self _
  name_eq := by
    rw [SymbolTable.symbol_addDetached, if_pos rfl]
    rfl

theorem addDetached (called : Called P t) (named : P name) (kind : SymbolKind) :
    Called P (t.addDetached scope name kind).2 := by
  refine called.extend (Widens.addDetached t scope name kind) (fun i other j known => .inl ?_) ?_
  · rwa [SymbolTable.member?_addDetached] at known
  · intro offset i known
    rw [SymbolTable.defining_addDetached, List.lookup_cons] at known
    split at known
    · next same =>
      rw [Option.some_inj] at known
      exact .inr ⟨name, named, (beq_iff_eq.mp same).symm,
        known ▸ hasName_addDetached t scope name kind⟩
    · exact .inl known

theorem addMember (called : Called P t) {name : String} (inside : scope < t.size)
    (has : HasName t id name) : Called P (t.addMember scope name id) := by
  have widens := Widens.addMember t name id inside
  refine called.extend widens ?_ fun _ _ known => .inl known
  intro i other j known
  rw [t.member?_addMember scope id name i other inside] at known
  split at known
  · next new =>
    obtain ⟨-, rfl, -⟩ := new
    rw [Option.some_inj] at known
    exact .inr (known ▸ has.widens widens)
  · exact .inl known

theorem add (called : Called P t) (named : P name) (kind : SymbolKind) (inside : scope < t.size) :
    Called P (t.add scope name kind).2 :=
  (called.addDetached named kind).addMember ((Widens.addDetached t scope name kind).lt_size inside)
    (hasName_addDetached t scope name kind)

theorem setConstant (called : Called P t) (id : SymbolId) (slot : ConstSlot) :
    Called P (t.setConstant id slot) :=
  called.modify id _ (fun _ => rfl) fun _ => rfl

/-! Each operation of the builder. -/

variable {b : ScopeBuilder}

theorem addDuplicate (called : Called P b.table) (named : P name) (kind : SymbolKind)
    (previous : SymbolId) : Called P (b.addDuplicate scope name kind previous).2.table :=
  (called.redeclare scope name previous).addDetached named kind

theorem declare (called : Called P b.table) (named : P name) (kind : SymbolKind)
    (inside : scope < b.table.size) : Called P (b.declare scope name kind).2.table := by
  rw [ScopeBuilder.declare]
  split
  · exact called.add named kind inside
  · exact called.addDuplicate named kind _

theorem openModule (called : Called P b.table) (named : P name) (inside : scope < b.table.size) :
    Called P (b.openModule scope name).2.table := by
  rw [ScopeBuilder.openModule]
  split
  · exact called.add named .module inside
  · next existing known =>
    split
    · exact called.bindSpan named (called.members scope name.name existing known)
    · exact called.addDuplicate named .module _

theorem complete (called : Called P b.table) (named : P name) (kind : ForwardKind)
    (inside : scope < b.table.size) : Called P (b.complete scope name kind).2.table := by
  simp only [ScopeBuilder.complete]
  split
  · exact called.add named _ inside
  · next existing known =>
    split
    · exact called.addDuplicate named _ _
    · split
      · exact called.addDetached named _
      · have taken := Widens.modify b.table existing
          (fun s => { s with isForward := false, span := name.span }) (fun _ => rfl) fun _ => rfl
        have kept := called.modify existing
          (fun s => { s with isForward := false, span := name.span }) (fun _ => rfl) fun _ => rfl
        exact kept.bindSpan named ((called.members scope name.name existing known).widens taken)

theorem announce (called : Called P b.table) {d : ForwardDecl} (named : P d.name)
    (inside : scope < b.table.size) : Called P (b.announce scope d).table := by
  simp only [ScopeBuilder.announce]
  split
  · exact (called.add named _ inside).modify _ _ (fun _ => rfl) fun _ => rfl
  · next existing known =>
    split
    · exact called.bindSpan named (called.members scope d.name.name existing known)
    · exact called.redeclare scope d.name existing

theorem enumerator (called : Called P b.table) {enum : SymbolId} (named : P name) (ordinal : Nat)
    (inside : scope < b.table.size) (used : enum < b.table.size) :
    Called P (ScopeBuilder.enumerator scope enum b name ordinal).table := by
  simp only [ScopeBuilder.enumerator]
  split
  · exact (called.addDuplicate named _ _).setConstant _ _
  · have entered := (called.add named (.enumerator enum ordinal) used).setConstant b.table.size
      (.value ⟨.enum enum, .enumerator enum ordinal name.name⟩)
    have widens := (Widens.add b.table name (.enumerator enum ordinal) used).trans
      (ScopeBuilder.widens_setConstant _ b.table.size
        (.value ⟨.enum enum, .enumerator enum ordinal name.name⟩))
    have has : HasName (b.table.add enum name (.enumerator enum ordinal)).2 b.table.size
        name.name :=
      (hasName_addDetached b.table enum name (.enumerator enum ordinal)).widens
        (Widens.addMember _ _ _ ((Widens.addDetached b.table enum name _).lt_size used))
    split
    · exact entered.redeclare _ _ _
    · exact entered.addMember (widens.lt_size inside)
        (has.widens (ScopeBuilder.widens_setConstant _ _ _))

end Called

section

variable {P : Ident → Prop} {b b' : ScopeBuilder}

theorem Move.called (move : Move P b b') (called : Called P b.table) : Called P b'.table := by
  cases move with
  | declare kind inside named _ => exact called.declare named kind inside
  | openModule inside named => exact called.openModule named inside
  | complete kind inside named => exact called.complete named kind inside
  | announce inside named => exact called.announce named inside
  | enumerator ordinal inside used _ _ named =>
    exact called.enumerator named ordinal inside used
  | setConstant id slot => exact called.setConstant id slot

theorem Moves.called (moves : Moves P b b') (called : Called P b.table) : Called P b'.table := by
  induction moves with
  | refl => exact called
  | tail _ move ih => exact move.called ih

end

/-- The symbols of a unit have the names of its declarations. -/
theorem called_buildScopes (s : Specification) :
    Called (· ∈ s.declarations.map (·.name)) (buildScopes s).table :=
  (moves_buildScopes s fun _ mem => List.mem_map_of_mem mem).called (called_empty _)

namespace Called

variable {P : Ident → Prop} {t u : SymbolTable}

/-- Binding leaves names alone. -/
theorem congr (called : Called P t) (same : SameFrame t u) : Called P u := by
  have hasName {id : SymbolId} {name : String} (has : HasName t id name) : HasName u id name :=
    ⟨Nat.lt_of_lt_of_eq has.used same.size.symm,
      (same.aspect Symbol.name (fun _ => rfl) id).trans has.name_eq⟩
  constructor
  · intro scope name id known
    rw [same.member?] at known
    exact hasName (called.members scope name id known)
  · intro offset id known
    rw [same.defining] at known
    obtain ⟨name, named, place, has⟩ := called.places offset id known
    exact ⟨name, named, place, hasName has⟩

/-- The symbol that a declaration defines has its name. -/
theorem name_of_definedAt? {ds : List Declaration} (called : Called (· ∈ ds.map (·.name)) t)
    (apart : Apart ds) {d : Declaration} (mem : d ∈ ds) {id : SymbolId}
    (place : t.definedAt? d.name.span = some id) : (t.symbol id).name = d.name.name := by
  obtain ⟨name, named, offset, has⟩ := called.places _ id place
  obtain ⟨other, inside, rfl⟩ := List.mem_map.mp named
  rw [has.name_eq, List.inj_on_of_nodup_map apart inside mem offset]

end Called

end Idl
