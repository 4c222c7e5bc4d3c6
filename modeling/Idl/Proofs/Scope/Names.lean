import Idl.Document
import Idl.Proofs.Scope.Frame
import Idl.Proofs.Scope.Visits
import Idl.Proofs.Text.Paths

/-!
Qualified names. While no name is found to be taken, each symbol but the global scope is held by an
earlier one, under its own name; so its qualified name leads to it and to no other symbol. Main
statements: `rooted_buildScopes` and `Rooted.resolveText?_qualifiedName`.
-/

set_option autoImplicit false

namespace Idl

/-- The symbol is a member of an earlier one, under its own name. -/
structure Held (t : SymbolTable) (id : SymbolId) : Prop where
  owner : ∃ p, (t.symbol id).parent = some p ∧ p < id ∧
    t.member? p (t.symbol id).name = some id
  kind : t.kind id ≠ .root
  name : IsIdent (t.symbol id).name

theorem Held.widens {t u : SymbolTable} {id : SymbolId} (held : Held t id) (inside : id < t.size)
    (widens : Widens t u) : Held u id := by
  obtain ⟨⟨p, parent, smaller, member⟩, kind, name⟩ := held
  refine ⟨⟨p, ?_, smaller, ?_⟩, ?_, ?_⟩
  · rw [widens.parent inside, parent]
  · rw [widens.name inside]
    exact widens.members p _ id member
  · rwa [widens.kind inside]
  · rwa [widens.name inside]

/-- A symbol that is entered under a free name is held by its scope. -/
theorem held_add {t : SymbolTable} {scope : SymbolId} {name : Ident} {kind : SymbolKind}
    (inside : scope < t.size) (free : t.member? scope name.name = none) (ident : IsIdent name.name)
    (proper : kind ≠ .root) : Held (t.add scope name kind).2 t.size := by
  have place := t.place_add scope name kind
  have called : ((t.add scope name kind).2.symbol t.size).name = name.name :=
    congrArg (fun place => place.1) place
  refine ⟨⟨scope, congrArg (fun place => place.2.2) place, inside, ?_⟩, ?_, called ▸ ident⟩
  · rw [called]
    exact SymbolTable.member?_add kind inside free
  · rwa [t.kind_add]

/-- What is new in `u` is held there. -/
def HoldsNew (t u : SymbolTable) : Prop := ∀ id, t.size ≤ id → id < u.size → Held u id

theorem holdsNew_of_size {t u : SymbolTable} (size : u.size = t.size) : HoldsNew t u :=
  fun _ large inside => absurd (Nat.lt_of_lt_of_eq inside size) (Nat.not_lt_of_le large)

theorem HoldsNew.add {t u : SymbolTable} {scope : SymbolId} {name : Ident} {kind : SymbolKind}
    (inside : scope < t.size) (free : t.member? scope name.name = none) (ident : IsIdent name.name)
    (proper : kind ≠ .root) (widens : Widens (t.add scope name kind).2 u)
    (size : u.size = (t.add scope name kind).2.size) : HoldsNew t u := by
  intro id large small
  have added : (t.add scope name kind).2.size = t.size + 1 :=
    (SymbolTable.size_modify _ _ _).trans (t.size_addDetached scope name kind)
  have new : id = t.size := by omega
  rw [new]
  exact (held_add inside free ident proper).widens (added ▸ Nat.lt_succ_self _) widens

namespace ScopeBuilder

variable {b : ScopeBuilder} {scope : SymbolId} {name : Ident}

/-- A name that is taken is recorded. -/
theorem not_quiet_addDuplicate (kind : SymbolKind) (previous : SymbolId) :
    ¬ (b.addDuplicate scope name kind previous).2.Quiet := fun quiet =>
  redeclarations_redeclare b.table scope previous name quiet.redeclarations

theorem not_quiet_redeclare (previous : SymbolId) :
    ¬ (b.modify (·.redeclare scope name previous)).Quiet := fun quiet =>
  redeclarations_redeclare b.table scope previous name quiet.redeclarations

theorem not_quiet_mismatch (m : ForwardMismatch) : ¬ (b.mismatch m).Quiet := fun quiet =>
  List.append_ne_nil_of_right_ne_nil _ (List.cons_ne_nil m []) quiet.mismatches

/-! Each operation that records nothing leaves what was recorded, and what it enters is held. -/

theorem holds_add (kind : SymbolKind) (inside : scope < b.table.size)
    (free : b.table.member? scope name.name = none) (ident : IsIdent name.name)
    (proper : kind ≠ .root) : HoldsNew b.table (b.add scope name kind).2.table :=
  .add inside free ident proper (Widens.refl _) rfl

theorem holds_declare (kind : SymbolKind) (inside : scope < b.table.size)
    (ident : IsIdent name.name) (proper : kind ≠ .root)
    (quiet : (b.declare scope name kind).2.Quiet) :
    b.Quiet ∧ HoldsNew b.table (b.declare scope name kind).2.table := by
  rw [declare] at quiet ⊢
  split at quiet
  · next free => exact ⟨⟨quiet.1, quiet.2⟩, holds_add kind inside free ident proper⟩
  · exact absurd quiet (not_quiet_addDuplicate kind _)

theorem holds_openModule (inside : scope < b.table.size) (ident : IsIdent name.name)
    (quiet : (b.openModule scope name).2.Quiet) :
    b.Quiet ∧ HoldsNew b.table (b.openModule scope name).2.table := by
  rw [openModule] at quiet ⊢
  split at quiet
  · next free => exact ⟨⟨quiet.1, quiet.2⟩, holds_add .module inside free ident (by decide)⟩
  · split at quiet
    · next module =>
      rw [if_pos module]
      exact ⟨⟨quiet.1, quiet.2⟩, holdsNew_of_size rfl⟩
    · exact absurd quiet (not_quiet_addDuplicate .module _)

theorem ofForward_ne_root (kind : ForwardKind) : SymbolKind.ofForward kind ≠ .root := by
  cases kind <;> decide

theorem holds_complete (kind : ForwardKind) (inside : scope < b.table.size)
    (ident : IsIdent name.name) (quiet : (b.complete scope name kind).2.Quiet) :
    b.Quiet ∧ HoldsNew b.table (b.complete scope name kind).2.table := by
  simp only [complete] at quiet ⊢
  split at quiet
  · next free =>
    exact ⟨⟨quiet.1, quiet.2⟩, holds_add _ inside free ident (ofForward_ne_root kind)⟩
  · split at quiet
    · exact absurd quiet (not_quiet_addDuplicate _ _)
    · next awaited =>
      split at quiet
      · exact absurd quiet (not_quiet_mismatch _)
      · next same =>
        rw [if_neg awaited, if_neg same]
        exact ⟨⟨quiet.1, quiet.2⟩, holdsNew_of_size (SymbolTable.size_modify _ _ _)⟩

theorem holds_announce (d : ForwardDecl) (inside : scope < b.table.size)
    (ident : IsIdent d.name.name) (quiet : (b.announce scope d).Quiet) :
    b.Quiet ∧ HoldsNew b.table (b.announce scope d).table := by
  simp only [announce] at quiet ⊢
  split at quiet
  · next free =>
    refine ⟨⟨quiet.1, quiet.2⟩, .add inside free ident (ofForward_ne_root d.kind)
      (Widens.modify _ _ (fun s => { s with isForward := true }) (fun _ => rfl) fun _ => rfl)
      (SymbolTable.size_modify _ _ _)⟩
  · split at quiet
    · next same =>
      rw [if_pos same]
      exact ⟨⟨quiet.1, quiet.2⟩, holdsNew_of_size rfl⟩
    · exact absurd quiet (not_quiet_redeclare _)

theorem holds_enumerator {enum : SymbolId} (ordinal : Nat) (inside : scope < b.table.size)
    (used : enum < b.table.size) (ident : IsIdent name.name)
    (quiet : (enumerator scope enum b name ordinal).Quiet) :
    b.Quiet ∧ HoldsNew b.table (enumerator scope enum b name ordinal).table := by
  simp only [enumerator] at quiet ⊢
  split at quiet
  · exact absurd ⟨quiet.1, quiet.2⟩ (not_quiet_addDuplicate (.enumerator enum ordinal) _)
  · next free =>
    split at quiet
    · exact absurd quiet (not_quiet_redeclare _)
    · next unknown =>
      have entered := widens_setConstant (b.add enum name (.enumerator enum ordinal)).2.table
        (b.add enum name (.enumerator enum ordinal)).1
        (.value ⟨.enum enum, .enumerator enum ordinal name.name⟩)
      have inner := entered.lt_size ((Widens.add b.table name (.enumerator enum ordinal)
        used).lt_size inside)
      refine ⟨⟨quiet.1, quiet.2⟩, .add used free ident (by simp)
        (entered.trans (Widens.addMember _ _ _ inner)) ?_⟩
      exact (SymbolTable.size_modify _ _ _).trans (SymbolTable.size_modify _ _ _)

end ScopeBuilder

theorem Move.holds {b b' : ScopeBuilder} (move : Move (fun name => IsIdent name.name) b b')
    (quiet : b'.Quiet) : b.Quiet ∧ HoldsNew b.table b'.table := by
  cases move with
  | declare kind inside ident fits =>
    exact ScopeBuilder.holds_declare kind inside ident fits.ne_root quiet
  | openModule inside ident => exact ScopeBuilder.holds_openModule inside ident quiet
  | complete kind inside ident => exact ScopeBuilder.holds_complete kind inside ident quiet
  | announce inside ident => exact ScopeBuilder.holds_announce _ inside ident quiet
  | enumerator ordinal inside used _ _ ident =>
    exact ScopeBuilder.holds_enumerator ordinal inside used ident quiet
  | setConstant id slot =>
    exact ⟨⟨quiet.1, quiet.2⟩, holdsNew_of_size (SymbolTable.size_modify _ _ _)⟩

/-- Every symbol is held by another, up to the global scope. -/
structure Rooted (t : SymbolTable) : Prop where
  used : 0 < t.size
  root : (t.symbol SymbolTable.rootId).place = ("", .root, none)
  held : ∀ id, 0 < id → id < t.size → Held t id

theorem rooted_empty : Rooted .empty where
  used := Nat.one_pos
  root := rfl
  held id large small := by
    have size : SymbolTable.empty.size = 1 := rfl
    omega

theorem Moves.rooted {b b' : ScopeBuilder} (moves : Moves (fun name => IsIdent name.name) b b')
    (before : Rooted b.table) (quiet : b'.Quiet) : Rooted b'.table := by
  induction moves with
  | refl => exact before
  | @tail m b' _ move ih =>
    obtain ⟨quiet, new⟩ := move.holds quiet
    have old := ih quiet
    refine ⟨move.widens.lt_size old.used, (move.widens.places 0 old.used).trans old.root, ?_⟩
    intro id large small
    by_cases inside : id < m.table.size
    · exact (old.held id large inside).widens inside move.widens
    · exact new id (Nat.le_of_not_lt inside) small

/-- A unit whose names are identifiers, none of them declared twice. -/
theorem rooted_buildScopes {s : Specification}
    (named : NamedBy (fun name => IsIdent name.name) s.declarations)
    (quiet : (buildScopes s).Quiet) : Rooted (buildScopes s).table :=
  (moves_buildScopes s named).rooted rooted_empty quiet

/-- Binding leaves names alone. -/
theorem Rooted.congr {t u : SymbolTable} (rooted : Rooted t) (same : SameFrame t u) :
    Rooted u where
  used := Nat.lt_of_lt_of_eq rooted.used same.size.symm
  root := (same.aspect Symbol.place (fun _ => rfl) 0).trans rooted.root
  held id large small := by
    obtain ⟨⟨p, parent, smaller, member⟩, kind, name⟩ :=
      rooted.held id large (Nat.lt_of_lt_of_eq small same.size)
    have called := same.aspect Symbol.name (fun _ => rfl) id
    refine ⟨⟨p, ?_, smaller, ?_⟩, ?_, ?_⟩
    · rw [same.aspect Symbol.parent (fun _ => rfl) id, parent]
    · rw [called, same.member?, member]
    · rwa [same.kind]
    · rwa [called]

/-! Paths. -/

namespace SymbolTable

/-- The names from the global scope down to a symbol. -/
def path (t : SymbolTable) (id : SymbolId) : List String :=
  ((t.chain id).filter fun i => t.kind i ≠ .root).reverse.map fun i => (t.symbol i).name

theorem qualifiedName_eq (t : SymbolTable) (id : SymbolId) :
    t.qualifiedName id = "::".intercalate (t.path id) := rfl

/-- Following names from a scope on either meets them all, or fails at one. -/
theorem descend_eq_ok_iff {t : SymbolTable} {id target : SymbolId} {names : List String} :
    t.descend id names = .ok target ↔ names.foldlM t.member? id = some target := by
  induction names generalizing id with
  | nil => simp [descend, pure]
  | cons name names ih =>
    rw [descend, List.foldlM_cons]
    cases t.member? id name with
    | none => simp
    | some next => exact ih

/-- An absolute name is a path from the global scope. -/
theorem resolve_absolute {t : SymbolTable} {name : ScopedName} {id : SymbolId}
    (absolute : name.absolute = true) (found : t.resolvePath? name.path = some id)
    (scope : SymbolId) : t.resolve scope name = .ok id := by
  have path : name.path = name.first.name :: name.more.map (·.name) := rfl
  rw [resolvePath?, path, List.foldlM_cons] at found
  simp only [resolve, absolute, if_true]
  cases first : t.member? rootId name.first.name with
  | none => simp [first] at found
  | some next =>
    rw [first] at found
    exact descend_eq_ok_iff.mpr found

end SymbolTable

namespace Rooted

variable {t : SymbolTable} {id other : SymbolId}

theorem path_root (rooted : Rooted t) : t.path SymbolTable.rootId = [] := by
  have kind : t.kind SymbolTable.rootId = .root := congrArg (fun place => place.2.1) rooted.root
  have parent : (t.symbol SymbolTable.rootId).parent = none :=
    congrArg (fun place => place.2.2) rooted.root
  simp [SymbolTable.path, SymbolTable.chain, parent, kind]

/-- The path of a symbol is that of its owner with its own name behind it. -/
theorem path_of_parent (rooted : Rooted t) (large : 0 < id) (inside : id < t.size) :
    ∃ p < id, t.member? p (t.symbol id).name = some id ∧
      t.path id = t.path p ++ [(t.symbol id).name] := by
  obtain ⟨⟨p, parent, smaller, member⟩, kind, -⟩ := rooted.held id large inside
  refine ⟨p, smaller, member, ?_⟩
  have chain : t.chain id = id :: t.chain p := by
    rw [SymbolTable.chain, parent]
    exact if_pos smaller
  simp [SymbolTable.path, chain, kind]

theorem words_path (rooted : Rooted t) (inside : id < t.size) :
    ∀ n ∈ t.path id, IsWord n := by
  induction id using Nat.strongRecOn with
  | _ id ih =>
    rcases Nat.eq_zero_or_pos id with rfl | large
    · have root := rooted.path_root
      rw [SymbolTable.rootId] at root
      simp [root]
    · obtain ⟨p, smaller, -, path⟩ := rooted.path_of_parent large inside
      rw [path, List.forall_mem_append]
      refine ⟨ih p smaller (Nat.lt_trans smaller inside), fun n mem => ?_⟩
      rw [List.mem_singleton.mp mem]
      exact (rooted.held id large inside).name.shape

theorem resolvePath?_path (rooted : Rooted t) (inside : id < t.size) :
    t.resolvePath? (t.path id) = some id := by
  induction id using Nat.strongRecOn with
  | _ id ih =>
    rcases Nat.eq_zero_or_pos id with rfl | large
    · have root := rooted.path_root
      rw [SymbolTable.rootId] at root
      rw [root]
      rfl
    · obtain ⟨p, smaller, member, path⟩ := rooted.path_of_parent large inside
      have owner := ih p smaller (Nat.lt_trans smaller inside)
      rw [SymbolTable.resolvePath?] at owner
      rw [path, SymbolTable.resolvePath?, List.foldlM_append, owner]
      simp [member]

theorem path_ne_nil (rooted : Rooted t) (large : 0 < id) (inside : id < t.size) :
    t.path id ≠ [] := by
  obtain ⟨p, -, -, path⟩ := rooted.path_of_parent large inside
  rw [path]
  exact List.append_ne_nil_of_right_ne_nil _ (List.cons_ne_nil _ _)

/-- The text of a qualified name gives its path back. -/
theorem pathNames_qualifiedName (rooted : Rooted t) (large : 0 < id) (inside : id < t.size) :
    Text.pathNames (t.qualifiedName id) = t.path id :=
  Text.pathNames_intercalate (rooted.path_ne_nil large inside) (rooted.words_path inside)

theorem resolveText?_qualifiedName (rooted : Rooted t) (large : 0 < id) (inside : id < t.size) :
    t.resolveText? (t.qualifiedName id) = some id := by
  rw [SymbolTable.resolveText?, rooted.pathNames_qualifiedName large inside]
  exact rooted.resolvePath?_path inside

/-- Only the global scope has no name. -/
theorem qualifiedName_ne_empty (rooted : Rooted t) (large : 0 < id) (inside : id < t.size) :
    t.qualifiedName id ≠ "" := by
  intro empty
  have names := rooted.pathNames_qualifiedName large inside
  rw [empty] at names
  have word := rooted.words_path inside "" (by rw [← names]; exact List.mem_singleton_self _)
  exact word.ne_empty rfl

theorem qualifiedName_injective (rooted : Rooted t) (inside : id < t.size)
    (inside' : other < t.size) (same : t.qualifiedName id = t.qualifiedName other) :
    id = other := by
  have root : t.qualifiedName 0 = "" := by
    rw [SymbolTable.qualifiedName_eq]
    exact congrArg _ rooted.path_root
  rcases Nat.eq_zero_or_pos id with rfl | large
  · rcases Nat.eq_zero_or_pos other with rfl | large'
    · rfl
    · exact absurd (same.symm.trans root) (rooted.qualifiedName_ne_empty large' inside')
  · rcases Nat.eq_zero_or_pos other with rfl | large'
    · exact absurd (same.trans root) (rooted.qualifiedName_ne_empty large inside)
    · have found := rooted.resolveText?_qualifiedName large inside
      rw [same, rooted.resolveText?_qualifiedName large' inside', Option.some_inj] at found
      exact found.symm

end Rooted

end Idl
