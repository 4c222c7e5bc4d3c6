import Idl.Proofs.Scope.Called

/-!
Slots: a name in a scope, held by a symbol of a kind that can be announced. Most operations of the
builder leave all of them aside. Main statements: `Aside.declare`, `Aside.openModule` and
`Aside.enumerator`.
-/

set_option autoImplicit false

namespace Idl

/-- A name in a scope, as what it is announced or defined. -/
structure Slot where
  scope : SymbolId
  name : String
  kind : ForwardKind
deriving DecidableEq, Repr

/-- The name stands for the symbol, which is of the kind. -/
structure Slot.Holds (s : Slot) (t : SymbolTable) (id : SymbolId) : Prop where
  member : t.member? s.scope s.name = some id
  kind : t.kind id = .ofForward s.kind

namespace Slot.Holds

variable {s : Slot} {t u : SymbolTable} {id : SymbolId}

theorem used (holds : s.Holds t id) : id < t.size := by
  apply t.lt_size_of_kind_ne_root
  rw [holds.kind]
  cases s.kind <;> decide

theorem widens (holds : s.Holds t id) (widens : Widens t u) : s.Holds u id :=
  ⟨widens.members _ _ _ holds.member, (widens.kind holds.used).trans holds.kind⟩

/-- A change of what is no place and no name. -/
theorem of_modify {i : SymbolId} (f : Symbol → Symbol) (place : ∀ s, (f s).place = s.place)
    (members : ∀ s, (f s).members = s.members) (holds : s.Holds (t.modify i f) id) :
    s.Holds t id where
  member := (congrArg (List.lookup s.name)
    (t.modify_aspect Symbol.members i s.scope f members)).symm.trans holds.member
  kind := (congrArg (fun place => place.2.1) (t.modify_aspect Symbol.place i id f place)).symm.trans
    holds.kind

end Slot.Holds

theorem SymbolKind.ofForward_injective {k l : ForwardKind} (same : ofForward k = ofForward l) :
    k = l := by
  cases k <;> cases l <;> first | rfl | cases same

/-- A symbol that can be announced is held by the scope that it stands in. -/
def SymbolTable.Homed (t : SymbolTable) : Prop :=
  ∀ (s : Slot) id, s.Holds t id → (t.symbol id).parent = some s.scope

/-- One slot alone holds a symbol. -/
theorem Slot.Holds.unique {s s' : Slot} {t : SymbolTable} {id : SymbolId} (first : s.Holds t id)
    (called : Called (fun _ => True) t) (homed : t.Homed) (second : s'.Holds t id) : s = s' := by
  have scope : s.scope = s'.scope := Option.some.inj ((homed s id first).symm.trans
    (homed s' id second))
  have name : s.name = s'.name := (called.members _ _ _ first.member).name_eq.symm.trans
    (called.members _ _ _ second.member).name_eq
  have kind : s.kind = s'.kind := SymbolKind.ofForward_injective (first.kind.symm.trans second.kind)
  cases s
  cases s'
  cases scope
  cases name
  cases kind
  rfl

/-- Where a symbol is defined, and whether it awaits its definition. -/
def Symbol.state (s : Symbol) : Span × Bool := (s.span, s.isForward)

/-- No slot comes to hold a symbol, and no symbol changes its state. -/
structure Aside (t u : SymbolTable) : Prop where
  widens : Widens t u
  states : ∀ i < t.size, (u.symbol i).state = (t.symbol i).state
  slots : ∀ (s : Slot) id, s.Holds u id → t.member? s.scope s.name = some id

namespace Aside

variable {t u : SymbolTable} {scope : SymbolId} {name : Ident} {kind : SymbolKind}

theorem of_members (widens : Widens t u)
    (states : ∀ i < t.size, (u.symbol i).state = (t.symbol i).state)
    (members : ∀ scope name, u.member? scope name = t.member? scope name) : Aside t u :=
  ⟨widens, states, fun s _ holds => (members s.scope s.name).symm.trans holds.member⟩

theorem bindSpan (t : SymbolTable) (span : Span) (id : SymbolId) : Aside t (t.bindSpan span id) :=
  of_members (Widens.bindSpan t span id) (fun _ _ => rfl) fun _ _ => rfl

theorem redeclare (t : SymbolTable) (scope : SymbolId) (name : Ident) (previous : SymbolId) :
    Aside t (t.redeclare scope name previous) :=
  of_members (Widens.redeclare t scope name previous) (fun _ _ => rfl) fun _ _ => rfl

theorem states_addDetached (t : SymbolTable) (scope : SymbolId) (name : Ident) (kind : SymbolKind)
    {i : SymbolId} (used : i < t.size) :
    ((t.addDetached scope name kind).2.symbol i).state = (t.symbol i).state := by
  rw [t.symbol_addDetached, if_neg (Nat.ne_of_lt used)]

theorem addDetached (t : SymbolTable) (scope : SymbolId) (name : Ident) (kind : SymbolKind) :
    Aside t (t.addDetached scope name kind).2 :=
  of_members (Widens.addDetached t scope name kind)
    (fun _ used => states_addDetached t scope name kind used)
    fun i other => t.member?_addDetached scope name kind i other

theorem states_add (t : SymbolTable) (scope : SymbolId) (name : Ident) (kind : SymbolKind)
    {i : SymbolId} (used : i < t.size) :
    ((t.add scope name kind).2.symbol i).state = (t.symbol i).state :=
  (SymbolTable.modify_aspect _ Symbol.state scope i (fun s =>
    { s with members := s.members ++ [(name.name, t.size)] }) fun _ => rfl).trans
    (states_addDetached t scope name kind used)

end Aside

namespace SymbolTable

theorem size_add (t : SymbolTable) (scope : SymbolId) (name : Ident) (kind : SymbolKind) :
    (t.add scope name kind).2.size = t.size + 1 :=
  (size_modify _ _ _).trans (t.size_addDetached scope name kind)

theorem state_add (t : SymbolTable) (scope : SymbolId) (name : Ident) (kind : SymbolKind) :
    ((t.add scope name kind).2.symbol t.size).state = (name.span, false) :=
  (modify_aspect _ Symbol.state scope _ (fun s =>
    { s with members := s.members ++ [(name.name, t.size)] }) fun _ => rfl).trans
    (congrArg Symbol.state ((t.symbol_addDetached scope t.size name kind).trans (if_pos rfl)))

theorem kind_setConstant (t : SymbolTable) (id : SymbolId) (slot : ConstSlot)
    (i : SymbolId) : (t.setConstant id slot).kind i = t.kind i :=
  t.modify_aspect Symbol.kind id i (fun s => { s with constant := slot }) fun _ => rfl

theorem member?_add_cases {t : SymbolTable} {scope i id : SymbolId} {name : Ident}
    {kind : SymbolKind} {other : String} (inside : scope < t.size)
    (known : (t.add scope name kind).2.member? i other = some id) :
    t.member? i other = some id ∨ i = scope ∧ other = name.name ∧ id = t.size := by
  have widened := (Widens.addDetached t scope name kind).lt_size inside
  have all := SymbolTable.member?_addMember (t.addDetached scope name kind).2 scope t.size
    name.name i other widened
  rw [t.member?_addDetached] at all
  change (t.add scope name kind).2.member? i other = _ at all
  rw [known] at all
  split at all
  · next new => exact .inr ⟨new.1, new.2.1, Option.some.inj all⟩
  · exact .inl all.symm

end SymbolTable

namespace Aside

variable {t u : SymbolTable} {scope : SymbolId}

/-- A symbol is entered that is never announced. -/
theorem add (t : SymbolTable) {kind : SymbolKind} (name : Ident) (inside : scope < t.size)
    (other : ∀ forward, kind ≠ .ofForward forward) : Aside t (t.add scope name kind).2 where
  widens := Widens.add t name kind inside
  states _ used := states_add t scope name kind used
  slots s id holds := by
    rcases SymbolTable.member?_add_cases inside holds.member with known | ⟨-, -, rfl⟩
    · exact known
    · have kind := holds.kind
      rw [t.kind_add] at kind
      exact absurd kind (other s.kind)

theorem setConstant (aside : Aside t u) (id : SymbolId) (slot : ConstSlot) :
    Aside t (u.setConstant id slot) where
  widens := aside.widens.trans (ScopeBuilder.widens_setConstant u id slot)
  states i used := (u.modify_aspect Symbol.state id i (fun s => { s with constant := slot })
    fun _ => rfl).trans (aside.states i used)
  slots s i holds := aside.slots s i
    (holds.of_modify (fun s => { s with constant := slot }) (fun _ => rfl) fun _ => rfl)

theorem then_redeclare (aside : Aside t u) (scope : SymbolId) (name : Ident)
    (previous : SymbolId) : Aside t (u.redeclare scope name previous) :=
  ⟨aside.widens.trans (Widens.redeclare u scope name previous), aside.states,
    fun s id holds => aside.slots s id ⟨holds.member, holds.kind⟩⟩

/-- A symbol that is never announced gets another name. -/
theorem addMember (aside : Aside t u) {name : String} {id : SymbolId} (inside : scope < u.size)
    (other : ∀ forward, u.kind id ≠ .ofForward forward) : Aside t (u.addMember scope name id) where
  widens := aside.widens.trans (Widens.addMember u name id inside)
  states i used := (u.modify_aspect Symbol.state scope i (fun s =>
    { s with members := s.members ++ [(name, id)] }) fun _ => rfl).trans (aside.states i used)
  slots s i holds := by
    have kind : (u.addMember scope name id).kind i = u.kind i :=
      u.modify_aspect Symbol.kind scope i _ fun _ => rfl
    have member := holds.member
    rw [u.member?_addMember scope id name _ _ inside] at member
    have forward := kind.symm.trans holds.kind
    split at member
    · rw [← Option.some.inj member] at forward
      exact absurd forward (other s.kind)
    · exact aside.slots s i ⟨member, forward⟩

theorem addDuplicate (b : ScopeBuilder) (scope : SymbolId) (name : Ident) (kind : SymbolKind)
    (previous : SymbolId) : Aside b.table (b.addDuplicate scope name kind previous).2.table :=
  of_members (ScopeBuilder.widens_addDuplicate kind previous)
    (fun _ used => states_addDetached (b.table.redeclare scope name previous) scope name kind used)
    fun i other => (b.table.redeclare scope name previous).member?_addDetached scope name kind i other

/-! Each operation of the builder. -/

variable {b : ScopeBuilder} {name : Ident}

theorem declare {kind : SymbolKind} (inside : scope < b.table.size)
    (other : ∀ forward, kind ≠ .ofForward forward) :
    Aside b.table (b.declare scope name kind).2.table := by
  rw [ScopeBuilder.declare]
  split
  · exact add b.table name inside other
  · exact addDuplicate b scope name kind _

theorem const (inside : scope < b.table.size) :
    Aside b.table (b.enterConst scope name).table := by
  have declared : Aside b.table (b.declare scope name .const).2.table :=
    declare inside (ScopeBuilder.ne_ofForward (by simp))
  exact declared.setConstant _ .pending

theorem openModule (inside : scope < b.table.size) :
    Aside b.table (b.openModule scope name).2.table := by
  rw [ScopeBuilder.openModule]
  split
  · exact add b.table name inside (ScopeBuilder.ne_ofForward (by simp))
  · split
    · exact bindSpan _ _ _
    · exact addDuplicate b scope name .module _

theorem enumerator {enum : SymbolId} (ordinal : Nat) (inside : scope < b.table.size)
    (used : enum < b.table.size) :
    Aside b.table (ScopeBuilder.enumerator scope enum b name ordinal).table := by
  have other : ∀ forward, SymbolKind.enumerator enum ordinal ≠ .ofForward forward :=
    ScopeBuilder.ne_ofForward (by simp)
  simp only [ScopeBuilder.enumerator]
  split
  · exact (addDuplicate b enum name _ _).setConstant _ _
  · have entered := (add b.table name used other).setConstant b.table.size
      (.value ⟨.enum enum, .enumerator enum ordinal name.name⟩)
    split
    · exact entered.then_redeclare _ _ _
    · apply entered.addMember (entered.widens.lt_size inside)
      intro forward
      show (SymbolTable.setConstant _ b.table.size _).kind b.table.size ≠ _
      rw [SymbolTable.kind_setConstant, b.table.kind_add]
      exact other forward

end Aside

theorem Aside.holds {t u : SymbolTable} {s : Slot} {id : SymbolId} (aside : Aside t u)
    (called : Called (fun _ => True) t) (holds : s.Holds u id) : s.Holds t id := by
  have member := aside.slots s id holds
  have used := (called.members _ _ _ member).used
  exact ⟨member, (aside.widens.kind used).symm.trans holds.kind⟩

end Idl
