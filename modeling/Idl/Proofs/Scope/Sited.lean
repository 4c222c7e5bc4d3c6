import Idl.Proofs.Scope.Announced
import Idl.Proofs.Scope.Tree

/-!
What an operation of the builder enters is still there at the end of a tour: the place of its name
leads to a symbol of its kind, in the scope in which it was entered. Only a forward declaration may
be left out, where the scope holds its name for something else. Main statement: `Tour.lasting`.
-/

set_option autoImplicit false

namespace Idl

/-- The name stands in the scope for a symbol of the kind, and its place leads there. -/
structure Sited (t : SymbolTable) (name : Ident) (kind : SymbolKind) (scope id : SymbolId) :
    Prop where
  place : t.definedAt? name.span = some id
  used : id < t.size
  stands : (t.symbol id).place = (name.name, kind, some scope)

/-- The scope holds the name of a forward declaration for a symbol of another kind. -/
def Refuses (t : SymbolTable) (scope : SymbolId) (name : Ident) (kind : ForwardKind) : Prop :=
  ∃ other, t.member? scope name.name = some other ∧ t.kind other ≠ .ofForward kind

namespace Visit

/-- The kind of the symbol that is entered. -/
def kind : Visit → SymbolKind
  | declare _ _ kind => kind
  | const _ _ => .const
  | openModule _ _ => .module
  | complete _ _ kind => .ofForward kind
  | announce _ d => .ofForward d.kind
  | enumerator _ enum _ ordinal => .enumerator enum ordinal

/-- The parent of the symbol that is entered. -/
def home : Visit → SymbolId
  | declare scope _ _ | const scope _ | openModule scope _ | complete scope _ _
  | announce scope _ => scope
  | enumerator _ enum _ _ => enum

/-- The symbol is defined here and nowhere else, as modules and forward declarations are not. -/
def isOwn : Visit → Bool
  | declare _ _ _ | const _ _ | complete _ _ _ | enumerator _ _ _ _ => true
  | openModule _ _ | announce _ _ => false

/-- The symbol that is entered, or that the name stands for already. -/
def entered (b : ScopeBuilder) : Visit → SymbolId
  | declare scope name kind => (b.declare scope name kind).1
  | const scope name => (b.declare scope name .const).1
  | openModule scope name => (b.openModule scope name).1
  | complete scope name kind => (b.complete scope name kind).1
  | announce scope d =>
    ((b.announce scope d).table.member? scope d.name.name).getD SymbolTable.rootId
  | enumerator _ _ _ _ => b.table.size

def Refused (t : SymbolTable) : Visit → Prop
  | announce scope d => Refuses t scope d.name d.kind
  | _ => False

/-- The table shows what the operation entered. -/
structure Lasts (v : Visit) (t : SymbolTable) (id : SymbolId) : Prop where
  sited : Sited t v.name v.kind v.home id ∨ v.Refused t
  own : v.isOwn = true → (t.symbol id).state = (v.name.span, false)

end Visit

/-- What a symbol of a scope is called, if it is no enumerator: the scope is its parent. -/
theorem ScopeTree.place_of_member? {t : SymbolTable} (tree : ScopeTree t) {scope id : SymbolId}
    {name : String} (known : t.member? scope name = some id)
    (plain : ∀ enum ordinal, t.kind id ≠ .enumerator enum ordinal) :
    (t.symbol id).place = (name, t.kind id, some scope) := by
  have holds := tree.members scope _ (t.mem_of_member? known)
  rcases holds.stands with parent | ⟨enum, ordinal, kind, -⟩
  · rw [Symbol.place, holds.has.name_eq, parent]
    rfl
  · exact absurd kind (plain enum ordinal)

namespace ScopeBuilder

variable {b : ScopeBuilder} {scope : SymbolId} {name : Ident}

/-! One operation. -/

theorem state_addDetached (t : SymbolTable) (scope : SymbolId) (name : Ident) (kind : SymbolKind) :
    ((t.addDetached scope name kind).2.symbol t.size).state = (name.span, false) :=
  congrArg Symbol.state ((t.symbol_addDetached scope t.size name kind).trans (if_pos rfl))

theorem place_addDetached (t : SymbolTable) (scope : SymbolId) (name : Ident) (kind : SymbolKind) :
    ((t.addDetached scope name kind).2.symbol t.size).place = (name.name, kind, some scope) :=
  congrArg Symbol.place ((t.symbol_addDetached scope t.size name kind).trans (if_pos rfl))

theorem state_declare (b : ScopeBuilder) (scope : SymbolId) (name : Ident) (kind : SymbolKind) :
    ((b.declare scope name kind).2.table.symbol (b.declare scope name kind).1).state =
      (name.span, false) := by
  rw [declare]
  split
  · exact b.table.state_add scope name kind
  · exact state_addDetached _ scope name kind

theorem sited_declare (b : ScopeBuilder) (scope : SymbolId) (name : Ident) (kind : SymbolKind) :
    Sited (b.declare scope name kind).2.table name kind scope (b.declare scope name kind).1 :=
  ⟨((step_declare b scope name kind).defines kind rfl).place, lt_size_declare kind,
    place_declare b scope name kind⟩

theorem sited_openModule (tree : ScopeTree b.table) :
    Sited (b.openModule scope name).2.table name .module scope (b.openModule scope name).1 := by
  refine ⟨(step_openModule b scope name).opens rfl, lt_size_openModule, ?_⟩
  rw [openModule]
  split
  · exact b.table.place_add scope name .module
  · next existing known =>
    split
    · next module =>
      have place := tree.place_of_member? known fun _ _ kind => by cases module.symm.trans kind
      rw [module] at place
      exact place
    · exact place_addDetached _ scope name .module

/-- A definition gets a symbol of its own, be it one that was announced. -/
theorem place_complete (tree : ScopeTree b.table) (kind : ForwardKind) :
    ((b.complete scope name kind).2.table.symbol (b.complete scope name kind).1).place =
      (name.name, .ofForward kind, some scope) := by
  simp only [complete]
  split
  · exact b.table.place_add scope name _
  · next existing known =>
    split
    · exact place_addDetached _ scope name _
    · split
      · exact place_addDetached _ scope name _
      · next same =>
        have plain := Decidable.not_not.mp same
        have place := tree.place_of_member? known fun enum ordinal kind' => by
          cases kind <;> cases plain.symm.trans kind'
        exact (SymbolTable.modify_aspect _ Symbol.place existing existing
          (fun s => { s with isForward := false, span := name.span }) fun _ => rfl).trans
          (plain ▸ place)

theorem state_complete (kind : ForwardKind) :
    ((b.complete scope name kind).2.table.symbol (b.complete scope name kind).1).state =
      (name.span, false) := by
  simp only [complete]
  split
  · exact b.table.state_add scope name _
  · next existing known =>
    split
    · exact state_addDetached _ scope name _
    · next awaited =>
      split
      · exact state_addDetached _ scope name _
      · have used := b.table.lt_size_of_isForward (by simpa using awaited)
        exact congrArg Symbol.state ((b.table.symbol_modify existing existing _).trans
          (if_pos ⟨rfl, used⟩))

/-- A forward declaration leads to the symbol of its name, unless the scope refuses it. -/
theorem sited_announce (tree : ScopeTree b.table) {d : ForwardDecl}
    (inside : scope < b.table.size) :
    Sited (b.announce scope d).table d.name (.ofForward d.kind) scope
        (Visit.entered b (.announce scope d)) ∨
      Refuses (b.announce scope d).table scope d.name d.kind := by
  by_cases admits : Slot.Admits ⟨scope, d.name.name, d.kind⟩ b.table
  · obtain ⟨id, holds⟩ := admits.announce inside
    have place := (tree.announce inside).place_of_member? holds.member fun enum ordinal kind => by
      cases announced : d.kind <;> cases (announced ▸ holds.kind).symm.trans kind
    rw [holds.kind] at place
    rw [Visit.entered, holds.member]
    exact .inl ⟨holds.announce inside, holds.used, place⟩
  · obtain ⟨other, known, kind⟩ : Refuses b.table scope d.name d.kind := by
      simpa [Slot.Admits, Refuses] using admits
    have widens := widens_announce d inside
    have used := (tree.members scope _ (b.table.mem_of_member? known)).has.used
    exact .inr ⟨other, widens.members _ _ _ known, (widens.kind used).symm ▸ kind⟩

/-- An enumerator is a new symbol in its enum. -/
theorem symbol_enumerator (b : ScopeBuilder) (scope enum : SymbolId) (name : Ident)
    (ordinal : Nat) {α : Type} (aspect : Symbol → α)
    (members : ∀ (s : Symbol) ms, aspect { s with members := ms } = aspect s)
    (constant : ∀ (s : Symbol) slot, aspect { s with constant := slot } = aspect s) :
    aspect ((enumerator scope enum b name ordinal).table.symbol b.table.size) =
      aspect (Symbol.fresh name.name (.enumerator enum ordinal) (some enum) name.span) := by
  have entered (t : SymbolTable) : aspect ((t.addDetached enum name
      (.enumerator enum ordinal)).2.symbol t.size) =
        aspect (Symbol.fresh name.name (.enumerator enum ordinal) (some enum) name.span) :=
    congrArg aspect ((t.symbol_addDetached enum t.size name _).trans (if_pos rfl))
  have valued (t : SymbolTable) (id i : SymbolId) (slot : ConstSlot) :
      aspect ((t.setConstant id slot).symbol i) = aspect (t.symbol i) :=
    t.modify_aspect aspect id i _ fun s => constant s slot
  have listed (t : SymbolTable) (i id j : SymbolId) (name : String) :
      aspect ((t.addMember i name id).symbol j) = aspect (t.symbol j) :=
    t.modify_aspect aspect i j _ fun s => members s _
  simp only [enumerator]
  split
  · exact (valued _ _ _ _).trans (entered (b.table.redeclare enum name _))
  · have added : aspect (((b.table.add enum name (.enumerator enum ordinal)).2.setConstant
        b.table.size (.value ⟨.enum enum, .enumerator enum ordinal name.name⟩)).symbol
          b.table.size) = _ :=
      (valued _ _ _ _).trans ((listed _ enum b.table.size _ name.name).trans (entered b.table))
    split
    · exact added
    · exact (listed _ _ _ _ _).trans added

theorem sited_enumerator (b : ScopeBuilder) (scope enum : SymbolId) (name : Ident)
    (ordinal : Nat) :
    Sited (enumerator scope enum b name ordinal).table name (.enumerator enum ordinal) enum
      b.table.size := by
  have bound : (enumerator scope enum b name ordinal).table.defining =
      (name.span.offset, b.table.size) :: b.table.defining := by
    simp only [enumerator]
    split
    · rfl
    · split <;> rfl
  have place := symbol_enumerator b scope enum name ordinal Symbol.place (fun _ _ => rfl)
    fun _ _ => rfl
  have kind : (enumerator scope enum b name ordinal).table.kind b.table.size =
      .enumerator enum ordinal := congrArg (fun place => place.2.1) place
  refine ⟨?_, ?_, place⟩
  · rw [SymbolTable.definedAt?_eq, bound]
    exact List.lookup_cons_self
  · exact SymbolTable.lt_size_of_kind_ne_root _ (by rw [kind]; simp)

end ScopeBuilder

namespace Visit

variable {b b' : ScopeBuilder} {v w : Visit} {vs : List Visit} {ds : List Declaration}
  {id : SymbolId}

/-- What an operation enters is there after it. -/
theorem Valid.lasts (valid : v.Valid b) (tree : ScopeTree b.table) :
    v.Lasts (v.apply b).table (v.entered b) := by
  cases v with
  | declare scope name kind =>
    exact ⟨.inl (b.sited_declare scope name kind), fun _ => b.state_declare scope name kind⟩
  | const scope name =>
    have sited := b.sited_declare scope name .const
    have widens := ScopeBuilder.widens_setConstant (b.declare scope name .const).2.table
      (b.declare scope name .const).1 .pending
    constructor
    · exact .inl ⟨sited.place, widens.lt_size sited.used,
        (widens.places _ sited.used).trans sited.stands⟩
    · have kept := (b.declare scope name .const).2.table.modify_aspect Symbol.state
        (b.declare scope name .const).1 (b.declare scope name .const).1
        (fun s => { s with constant := .pending }) fun _ => rfl
      exact fun _ => kept.trans (b.state_declare scope name .const)
  | openModule scope name => exact ⟨.inl (ScopeBuilder.sited_openModule tree), nofun⟩
  | complete scope name kind =>
    have step := (step_complete b scope name kind).defines _ rfl
    exact ⟨.inl ⟨step.place, step.used, ScopeBuilder.place_complete tree kind⟩,
      fun _ => ScopeBuilder.state_complete kind⟩
  | announce scope d => exact ⟨ScopeBuilder.sited_announce tree valid, nofun⟩
  | enumerator scope enum name ordinal =>
    exact ⟨.inl (b.sited_enumerator scope enum name ordinal),
      fun _ => ScopeBuilder.symbol_enumerator b scope enum name ordinal Symbol.state
        (fun _ _ => rfl) fun _ _ => rfl⟩

/-- A symbol that awaits no definition stays as it is. -/
theorem Valid.state (valid : v.Valid b) {i : SymbolId} (used : i < b.table.size)
    (complete : (b.table.symbol i).isForward = false) :
    ((v.apply b).table.symbol i).state = (b.table.symbol i).state := by
  cases v with
  | declare scope name kind => exact (Aside.declare valid.1 valid.2.2).states i used
  | const scope name => exact (Aside.const valid).states i used
  | openModule scope name => exact (Aside.openModule valid).states i used
  | enumerator scope enum name ordinal =>
    exact (Aside.enumerator ordinal valid.1 valid.2.1).states i used
  | complete scope name kind =>
    simp only [apply, ScopeBuilder.complete]
    split
    · exact Aside.states_add b.table scope name _ used
    · next existing known =>
      split
      · exact (Aside.addDuplicate b scope name _ existing).states i used
      · next awaited =>
        split
        · exact Aside.states_addDetached b.table scope name _ used
        · have other : i ≠ existing := by
            rintro rfl
            simp [complete] at awaited
          exact congrArg Symbol.state ((b.table.symbol_modify existing i _).trans
            (if_neg fun same => other same.1))
  | announce scope d =>
    simp only [apply, ScopeBuilder.announce]
    split
    · have other : i ≠ b.table.size := Nat.ne_of_lt used
      exact (congrArg Symbol.state ((SymbolTable.symbol_modify _ b.table.size i _).trans
        (if_neg fun same => other same.1))).trans (Aside.states_add b.table scope d.name _ used)
    · split <;> rfl

theorem Lasts.sited_of_isOwn {t : SymbolTable} (lasts : v.Lasts t id) (own : v.isOwn = true) :
    Sited t v.name v.kind v.home id := by
  apply lasts.sited.resolve_right
  cases v with
  | announce scope d => cases own
  | _ => exact not_false

/-- What an operation entered is there after another one at a place of its own. -/
theorem Lasts.step (lasts : v.Lasts b.table id) (tree : ScopeTree b.table) (valid : w.Valid b)
    (away : v.name.span.offset ≠ w.name.span.offset) : v.Lasts (w.apply b).table id := by
  have widens := valid.widens
  constructor
  · rcases lasts.sited with sited | refused
    · exact .inl ⟨(elsewhere away).trans sited.place, widens.lt_size sited.used,
        (widens.places _ sited.used).trans sited.stands⟩
    · right
      cases v with
      | announce scope d =>
        obtain ⟨other, known, kind⟩ := refused
        have used := (tree.members scope _ (b.table.mem_of_member? known)).has.used
        exact ⟨other, widens.members _ _ _ known, (widens.kind used).symm ▸ kind⟩
      | _ => exact refused.elim
  · intro own
    have state := lasts.own own
    exact (valid.state (lasts.sited_of_isOwn own).used (congrArg Prod.snd state)).trans state

end Visit

/-- The table shows what each of the operations entered that begin with the builder. -/
def Lasting (t : SymbolTable) : ScopeBuilder → List Visit → Prop
  | _, [] => True
  | b, v :: vs => v.Lasts t (v.entered b) ∧ Lasting t (v.apply b) vs

theorem lasting_append {t : SymbolTable} {b : ScopeBuilder} {vs ws : List Visit} :
    Lasting t b (vs ++ ws) ↔ Lasting t b vs ∧ Lasting t (vs.foldl Visit.apply b) ws := by
  induction vs generalizing b with
  | nil => simp [Lasting]
  | cons v vs ih => simp [Lasting, ih, and_assoc]

namespace Tour

variable {b b' : ScopeBuilder} {v : Visit} {vs : List Visit} {ds : List Declaration}

theorem lasts (tour : Tour b vs ds b') (tree : ScopeTree b.table) {id : SymbolId}
    (lasts : v.Lasts b.table id)
    (away : v.name.span.offset ∉ ds.map (·.name.span.offset)) : v.Lasts b'.table id := by
  induction tour with
  | nil => exact lasts
  | cons valid declares _ ih =>
    rw [List.map_cons, List.mem_cons, not_or] at away
    have next := (valid.moves (P := fun _ => True) trivial).scopeTree tree
    exact ih next (lasts.step tree valid (declares.name ▸ away.1)) away.2

/-- Whatever a tour enters is there at its end, if no two of its names stand at one place. -/
theorem lasting (tour : Tour b vs ds b') (tree : ScopeTree b.table) (apart : Apart ds) :
    Lasting b'.table b vs := by
  induction tour with
  | nil => trivial
  | cons valid declares rest ih =>
    rw [Apart, List.map_cons, List.nodup_cons] at apart
    have next := (valid.moves (P := fun _ => True) trivial).scopeTree tree
    exact ⟨rest.lasts next (valid.lasts tree) (declares.name ▸ apart.1), ih next apart.2⟩

end Tour

end Idl
