import Idl.Proofs.Layout.Read
import Idl.Proofs.Scope.Slots
import Mathlib

/-!
Forward declarations. All of one name and kind in a scope share a symbol, which awaits the first
definition of that kind and becomes its symbol. Main statements: `Shared.step`,
`shared_buildScopes` and `holds_of_announce`.
-/

set_option autoImplicit false

namespace Idl

/-- The slot that the operation announces or defines. -/
def Visit.slot? : Visit → Option Slot
  | .announce scope d => some ⟨scope, d.name.name, d.kind⟩
  | .complete scope name kind => some ⟨scope, name.name, kind⟩
  | _ => none

namespace Slot

/-- The identifier of the operation if it is a forward declaration in the slot. -/
def announced? (s : Slot) : Visit → Option Ident
  | .announce scope d => if (⟨scope, d.name.name, d.kind⟩ : Slot) = s then some d.name else none
  | _ => none

/-- The identifier of the operation if it is a definition in the slot. -/
def defined? (s : Slot) : Visit → Option Ident
  | .complete scope name kind =>
    if (⟨scope, name.name, kind⟩ : Slot) = s then some name else none
  | _ => none

variable {s : Slot} {v : Visit} {vs : List Visit} {name : Ident}

theorem of_announced? (found : s.announced? v = some name) :
    v.slot? = some s ∧ v.name = name := by
  cases v with
  | announce scope d =>
    rw [announced?] at found
    split at found
    · next same => exact ⟨congrArg some same, Option.some.inj found⟩
    · cases found
  | _ => cases found

theorem of_defined? (found : s.defined? v = some name) : v.slot? = some s ∧ v.name = name := by
  cases v with
  | complete scope other kind =>
    rw [defined?] at found
    split at found
    · next same => exact ⟨congrArg some same, Option.some.inj found⟩
    · cases found
  | _ => cases found

theorem mem_of_defined (found : vs.findSome? s.defined? = some name) :
    ∃ v ∈ vs, v.slot? = some s ∧ v.name = name := by
  obtain ⟨v, inside, found⟩ := List.exists_of_findSome?_eq_some found
  exact ⟨v, inside, of_defined? found⟩

end Slot

/-- The symbol is that of its definition. -/
structure Fulfilled (t : SymbolTable) (name : Ident) (id : SymbolId) : Prop where
  place : t.definedAt? name.span = some id
  state : (t.symbol id).state = (name.span, false)

/-- What a symbol is where `definition?` is the first definition in its slot. -/
def SymbolTable.Follows (t : SymbolTable) (id : SymbolId) : (definition? : Option Ident) → Prop
  | some name => Fulfilled t name id
  | none => (t.symbol id).isForward = true

/-- How the symbol of a slot comes through an operation. -/
inductive Slot.Turn (s : Slot) (v : Visit) (t u : SymbolTable) (id : SymbolId) : Prop
  /-- It was there, and stays as it is. -/
  | kept (before : s.Holds t id) (state : (u.symbol id).state = (t.symbol id).state)
      (complete : ∀ name, s.defined? v = some name → (t.symbol id).isForward = false)
  /-- It was announced, and is defined. -/
  | fulfilled {name : Ident} (before : s.Holds t id) (defines : s.defined? v = some name)
      (awaited : (t.symbol id).isForward = true) (fulfilled : Fulfilled u name id)
  /-- It is new. -/
  | opened (free : t.member? s.scope s.name = none)
      (parent : (u.symbol id).parent = some s.scope) (follows : u.Follows id (s.defined? v))

/-! What one operation does to a slot. -/

namespace Slot.Turn

variable {t u : SymbolTable} {b : ScopeBuilder} {s : Slot} {v : Visit} {scope id : SymbolId}
  {name : Ident} {kind : ForwardKind}

theorem of_aside (aside : Aside t u) (called : Called (fun _ => True) t) (holds : s.Holds u id)
    (complete : ∀ name, s.defined? v = some name → (t.symbol id).isForward = false) :
    s.Turn v t u id := by
  have before := aside.holds called holds
  exact .kept before (aside.states id before.used) complete

/-- A symbol that is entered is that of the slot in which it is entered, and of no other. -/
theorem of_holds_add (inside : scope < t.size)
    (holds : s.Holds (t.add scope name (.ofForward kind)).2 id) :
    t.member? s.scope s.name = some id ∨ s = ⟨scope, name.name, kind⟩ ∧ id = t.size := by
  rcases SymbolTable.member?_add_cases inside holds.member with known | ⟨scopes, names, rfl⟩
  · exact .inl known
  · have kinds : SymbolKind.ofForward kind = .ofForward s.kind :=
      (t.kind_add scope name _).symm.trans holds.kind
    refine .inr ⟨?_, rfl⟩
    rw [SymbolKind.ofForward_injective kinds, ← scopes, ← names]

/-- The symbol is entered, and then changed at most in its own state. -/
theorem of_add (called : Called (fun _ => True) t) (inside : scope < t.size)
    (free : t.member? scope name.name = none) (slot : v.slot? = some ⟨scope, name.name, kind⟩)
    (widens : Widens (t.add scope name (.ofForward kind)).2 u)
    (states : ∀ i < t.size, (u.symbol i).state =
      ((t.add scope name (.ofForward kind)).2.symbol i).state)
    (follows : u.Follows t.size (Slot.defined? ⟨scope, name.name, kind⟩ v))
    (holds : s.Holds u id) (entered : s.Holds (t.add scope name (.ofForward kind)).2 id) :
    s.Turn v t u id := by
  rcases of_holds_add inside entered with known | ⟨rfl, rfl⟩
  · have used := (called.members _ _ _ known).used
    have kinds := ((Widens.add t name (.ofForward kind) inside).trans widens).kind used
    apply Slot.Turn.kept ⟨known, kinds.symm.trans holds.kind⟩
    · exact (states id used).trans (Aside.states_add t scope name _ used)
    · intro other defines
      cases slot.symm.trans (of_defined? defines).1
      rw [free] at known
      cases known
  · apply Slot.Turn.opened free _ follows
    rw [widens.parent entered.used]
    exact congrArg (fun place => place.2.2) (t.place_add scope name (.ofForward kind))

/-- A definition takes over the symbol of its slot. -/
theorem of_takeOver (called : Called (fun _ => True) t) (homed : t.Homed)
    {existing : SymbolId} (own : Slot.Holds ⟨scope, name.name, kind⟩ t existing)
    (awaited : (t.symbol existing).isForward = true)
    (holds : s.Holds ((t.modify existing fun s =>
      { s with isForward := false, span := name.span }).bindSpan name.span existing) id) :
    s.Turn (.complete scope name kind) t ((t.modify existing fun s =>
      { s with isForward := false, span := name.span }).bindSpan name.span existing) id := by
  have before : s.Holds t id := Slot.Holds.of_modify
    (fun s => { s with isForward := false, span := name.span }) (fun _ => rfl) (fun _ => rfl)
    ⟨holds.member, holds.kind⟩
  by_cases same : id = existing
  · subst same
    have slot := own.unique called homed before
    have defines : s.defined? (.complete scope name kind) = some name := if_pos slot
    apply Slot.Turn.fulfilled before defines awaited
    constructor
    · exact List.lookup_cons_self
    · show (((t.modify id fun s => { s with isForward := false, span := name.span })).symbol
        id).state = _
      rw [SymbolTable.symbol_modify, if_pos ⟨rfl, before.used⟩]
      rfl
  · apply Slot.Turn.kept before
    · show (((t.modify existing fun s => { s with isForward := false, span := name.span })).symbol
        id).state = _
      rw [SymbolTable.symbol_modify, if_neg fun h => same h.1]
    · intro other defines
      cases (of_defined? defines).1
      exact absurd (Option.some.inj (before.member.symm.trans own.member)) same

theorem complete (called : Called (fun _ => True) b.table)
    (homed : b.table.Homed) (inside : scope < b.table.size)
    (holds : s.Holds (b.complete scope name kind).2.table id) :
    s.Turn (.complete scope name kind) b.table (b.complete scope name kind).2.table id := by
  revert holds
  simp only [ScopeBuilder.complete]
  split
  · next free =>
    intro holds
    apply of_add called inside free rfl (Widens.refl _) (fun _ _ => rfl) _ holds holds
    rw [defined?, if_pos rfl]
    exact ⟨List.lookup_cons_self, b.table.state_add scope name _⟩
  · next existing known =>
    split
    · next complete =>
      intro holds
      have aside := Aside.addDuplicate b scope name (.ofForward kind) existing
      apply of_aside aside called holds
      intro other defines
      cases (of_defined? defines).1
      rw [Option.some.inj ((aside.holds called holds).member.symm.trans known)]
      simpa using complete
    · next awaited =>
      split
      · next other =>
        intro holds
        have aside := Aside.addDetached b.table scope name (.ofForward kind)
        apply of_aside aside called holds
        intro _ defines
        cases (of_defined? defines).1
        have before := aside.holds called holds
        rw [← Option.some.inj (before.member.symm.trans known)] at other
        exact absurd before.kind other
      · next same =>
        intro holds
        exact of_takeOver called homed ⟨known, Decidable.not_not.mp same⟩ (by simpa using awaited)
          holds

theorem announce_new {d : ForwardDecl} (called : Called (fun _ => True) t)
    (inside : scope < t.size) (free : t.member? scope d.name.name = none)
    (holds : s.Holds ((t.add scope d.name (.ofForward d.kind)).2.modify t.size fun s =>
      { s with isForward := true }) id) :
    s.Turn (.announce scope d) t ((t.add scope d.name (.ofForward d.kind)).2.modify t.size fun s =>
      { s with isForward := true }) id := by
  have entered := holds.of_modify (fun s => { s with isForward := true }) (fun _ => rfl)
    fun _ => rfl
  apply of_add called inside free rfl _ _ _ holds entered
  · exact Widens.modify _ _ _ (fun _ => rfl) fun _ => rfl
  · intro i used
    rw [SymbolTable.symbol_modify, if_neg fun h => Nat.ne_of_lt used h.1]
  · show (SymbolTable.symbol _ _).isForward = true
    have new : t.size < (t.add scope d.name (.ofForward d.kind)).2.size := by
      rw [t.size_add]
      exact Nat.lt_succ_self _
    rw [SymbolTable.symbol_modify, if_pos ⟨rfl, new⟩]

theorem announce {d : ForwardDecl} (called : Called (fun _ => True) b.table)
    (inside : scope < b.table.size) (holds : s.Holds (b.announce scope d).table id) :
    s.Turn (.announce scope d) b.table (b.announce scope d).table id := by
  revert holds
  simp only [ScopeBuilder.announce]
  split
  · next free =>
    intro holds
    exact announce_new called inside free holds
  · next existing known =>
    split
    · intro holds
      exact of_aside (Aside.bindSpan b.table d.name.span existing) called holds (by simp [defined?])
    · intro holds
      exact of_aside (Aside.redeclare b.table scope d.name existing) called holds
        (by simp [defined?])

/-! What comes of it. -/

theorem parent_eq (turn : s.Turn v t u id) (widens : Widens t u)
    (before : s.Holds t id → (t.symbol id).parent = some s.scope) :
    (u.symbol id).parent = some s.scope := by
  cases turn with
  | kept holds _ _ | fulfilled holds _ _ _ => exact (widens.parent holds.used).trans (before holds)
  | opened _ parent _ => exact parent

/-- If the symbol followed the first definition in its slot, then it does so after one more. -/
theorem follows {first : Option Ident} (turn : s.Turn v t u id)
    (before : s.Holds t id → t.Follows id first)
    (fresh : t.member? s.scope s.name = none → first = none)
    (places : ∀ name, first = some name → u.definedAt? name.span = t.definedAt? name.span) :
    u.Follows id (first.or (s.defined? v)) := by
  cases turn with
  | kept holds state complete =>
    have follows := before holds
    cases first with
    | some name => exact ⟨(places name rfl).trans follows.place, state.trans follows.state⟩
    | none =>
      show u.Follows id (s.defined? v)
      cases defines : s.defined? v with
      | some name => cases (complete name defines).symm.trans follows
      | none => exact (congrArg Prod.snd state).trans follows
  | fulfilled holds defines awaited fulfilled =>
    have follows := before holds
    cases first with
    | some name => cases awaited.symm.trans (congrArg Prod.snd follows.state)
    | none =>
      show u.Follows id (s.defined? v)
      rw [defines]
      exact fulfilled
  | opened free parent follows =>
    rw [fresh free]
    exact follows

end Slot.Turn

section

variable {b b' : ScopeBuilder} {s : Slot} {v : Visit} {id : SymbolId}

theorem Visit.Valid.turn (valid : v.Valid b) (called : Called (fun _ => True) b.table)
    (homed : b.table.Homed) (holds : s.Holds (v.apply b).table id) :
    s.Turn v b.table (v.apply b).table id := by
  cases v with
  | declare scope name kind =>
    exact .of_aside (Aside.declare valid.1 valid.2.2) called holds (by simp [Slot.defined?])
  | const scope name =>
    exact .of_aside (Aside.const valid) called holds (by simp [Slot.defined?])
  | openModule scope name =>
    exact .of_aside (Aside.openModule valid) called holds (by simp [Slot.defined?])
  | complete scope name kind => exact .complete called homed valid holds
  | announce scope d => exact .announce called valid holds
  | enumerator scope enum name ordinal =>
    exact .of_aside (Aside.enumerator ordinal valid.1 valid.2.1) called holds
      (by simp [Slot.defined?])

/-- A forward declaration under a free name gets a symbol of its own. -/
theorem Slot.holds_announce {scope : SymbolId} {d : ForwardDecl} (inside : scope < b.table.size)
    (free : b.table.member? scope d.name.name = none) :
    Slot.Holds ⟨scope, d.name.name, d.kind⟩ (b.announce scope d).table b.table.size := by
  have entered : Slot.Holds ⟨scope, d.name.name, d.kind⟩
      (b.table.add scope d.name (.ofForward d.kind)).2 b.table.size :=
    ⟨SymbolTable.member?_add _ inside free, b.table.kind_add scope d.name _⟩
  simp only [ScopeBuilder.announce, free]
  exact entered.widens (Widens.modify _ _ (fun s => { s with isForward := true }) (fun _ => rfl)
    fun _ => rfl)

/-- The place of a forward declaration leads to the symbol of its slot. -/
theorem Slot.Holds.announce {scope : SymbolId} {d : ForwardDecl} (inside : scope < b.table.size)
    (holds : Slot.Holds ⟨scope, d.name.name, d.kind⟩ (b.announce scope d).table id) :
    (b.announce scope d).table.definedAt? d.name.span = some id := by
  cases before : b.table.member? scope d.name.name with
  | none =>
    have new := Slot.holds_announce inside before
    rw [Option.some.inj (holds.member.symm.trans new.member)]
    simp only [ScopeBuilder.announce, before]
    exact List.lookup_cons_self
  | some existing =>
    revert holds
    simp only [ScopeBuilder.announce, before]
    split
    · intro holds
      rw [Option.some.inj (holds.member.symm.trans before)]
      exact List.lookup_cons_self
    · next other =>
      intro holds
      rw [Option.some.inj (before.symm.trans holds.member)] at other
      exact absurd holds.kind other

theorem Visit.Valid.announced (valid : v.Valid b) (holds : s.Holds (v.apply b).table id)
    {name : Ident} (announces : s.announced? v = some name) :
    (v.apply b).table.definedAt? name.span = some id := by
  cases v with
  | announce scope d =>
    obtain ⟨slot, rfl⟩ := Slot.of_announced? announces
    cases slot
    exact holds.announce valid
  | _ => cases announces

/-- No operation on a slot leaves its name free. -/
theorem Visit.Valid.taken (valid : v.Valid b) (slot : v.slot? = some s) :
    ((v.apply b).table.member? s.scope s.name).isSome = true := by
  cases before : b.table.member? s.scope s.name with
  | some id =>
    rw [valid.widens.members _ _ _ before]
    rfl
  | none =>
    cases v with
    | complete scope name kind =>
      cases slot
      have entered : ((Visit.complete scope name kind).apply b).table =
          (b.table.add scope name (.ofForward kind)).2 := by
        simp only [Visit.apply, ScopeBuilder.complete, before]
        rfl
      rw [entered, SymbolTable.member?_add _ valid before]
      rfl
    | announce scope d =>
      cases slot
      have new : Slot.Holds _ ((Visit.announce scope d).apply b).table _ :=
        Slot.holds_announce valid before
      rw [new.member]
      rfl
    | _ => cases slot

/-- An operation binds the place of its own name alone. -/
theorem Visit.elsewhere {span : Span} (away : span.offset ≠ v.name.span.offset) :
    (v.apply b).table.definedAt? span = b.table.definedAt? span := by
  cases v with
  | declare scope name kind => exact (step_declare b scope name kind).elsewhere _ away
  | const scope name => exact (step_declare b scope name .const).elsewhere _ away
  | openModule scope name => exact (step_openModule b scope name).elsewhere _ away
  | complete scope name kind => exact (step_complete b scope name kind).elsewhere _ away
  | announce scope d =>
    obtain ⟨_, step⟩ := step_announce b scope d
    exact step.elsewhere _ away
  | enumerator scope enum name ordinal =>
    have unequal : (span.offset == name.span.offset) = false := beq_false_of_ne away
    have bound : ((Visit.enumerator scope enum name ordinal).apply b).table.defining =
        (name.span.offset, b.table.size) :: b.table.defining := by
      simp only [Visit.apply, ScopeBuilder.enumerator]
      split
      · rfl
      · split <;> rfl
    rw [SymbolTable.definedAt?_eq, bound, List.lookup_cons, unequal]
    rfl

end

/-- What a builder knows of slots after the operations. -/
structure Shared (b : ScopeBuilder) (vs : List Visit) : Prop where
  called : Called (fun _ => True) b.table
  homed : b.table.Homed
  taken : ∀ v ∈ vs, ∀ s, v.slot? = some s → (b.table.member? s.scope s.name).isSome = true
  announced : ∀ (s : Slot) id, s.Holds b.table id → ∀ v ∈ vs, ∀ name, s.announced? v = some name →
    b.table.definedAt? name.span = some id
  follows : ∀ (s : Slot) id, s.Holds b.table id → b.table.Follows id (vs.findSome? s.defined?)

namespace Shared

variable {b b' : ScopeBuilder} {vs : List Visit} {v : Visit}

/-- What any operation at a new place preserves. -/
theorem step (shared : Shared b vs) (valid : v.Valid b)
    (apart : v.name.span.offset ∉ vs.map (·.name.span.offset)) :
    Shared (v.apply b) (vs ++ [v]) := by
  have turn {s : Slot} {id : SymbolId} (holds : s.Holds (v.apply b).table id) :=
    valid.turn shared.called shared.homed holds
  have unused {s : Slot} (free : b.table.member? s.scope s.name = none) {w : Visit} (mem : w ∈ vs)
      (slot : w.slot? = some s) : False := by
    have known := shared.taken w mem s slot
    rw [free] at known
    cases known
  have away {w : Visit} (mem : w ∈ vs) : w.name.span.offset ≠ v.name.span.offset :=
    fun same => apart (same ▸ List.mem_map_of_mem (f := (·.name.span.offset)) mem)
  constructor
  case called => exact (valid.moves trivial).called shared.called
  case homed =>
    intro s id holds
    exact (turn holds).parent_eq valid.widens (shared.homed s id)
  case taken =>
    intro w mem s slot
    rcases List.mem_append.mp mem with mem | mem
    · obtain ⟨id, known⟩ := Option.isSome_iff_exists.mp (shared.taken w mem s slot)
      rw [valid.widens.members _ _ _ known]
      rfl
    · rw [List.mem_singleton.mp mem] at slot
      exact valid.taken slot
  case announced =>
    intro s id holds w mem name announces
    rcases List.mem_append.mp mem with mem | mem
    · obtain ⟨slot, rfl⟩ := Slot.of_announced? announces
      rw [Visit.elsewhere (away mem)]
      cases turn holds with
      | kept before _ _ | fulfilled before _ _ _ =>
        exact shared.announced s id before w mem _ announces
      | opened free _ _ => exact (unused free mem slot).elim
    · rw [List.mem_singleton.mp mem] at announces
      exact valid.announced holds announces
  case follows =>
    intro s id holds
    rw [List.findSome?_append, List.findSome?_singleton]
    apply (turn holds).follows (shared.follows s id)
    · intro free
      apply List.findSome?_eq_none_iff.mpr
      intro w mem
      by_contra defines
      obtain ⟨name, defines⟩ := Option.ne_none_iff_exists'.mp defines
      exact unused free mem (Slot.of_defined? defines).1
    · intro name first
      obtain ⟨w, mem, -, rfl⟩ := Slot.mem_of_defined first
      exact Visit.elsewhere (away mem)

theorem empty : Shared ⟨.empty, []⟩ [] where
  called := called_empty _
  homed s id holds := by cases (SymbolTable.member?_empty _ _).symm.trans holds.member
  taken := by simp
  announced := by simp
  follows s id holds := by cases (SymbolTable.member?_empty _ _).symm.trans holds.member

/-- What any tour with new places preserves. -/
theorem tour {ws : List Visit} {ds : List Declaration} (shared : Shared b vs)
    (tour : Tour b ws ds b')
    (apart : ((vs ++ ws).map (·.name.span.offset)).Nodup) : Shared b' (vs ++ ws) := by
  induction tour generalizing vs with
  | nil => simpa using shared
  | @cons b b' v ws d ds valid _ _ ih =>
    rw [List.append_cons] at apart ⊢
    apply ih (shared.step valid _) apart
    rw [List.map_append, List.map_append] at apart
    have first := (List.nodup_append.mp apart).1
    simpa using (List.nodup_append.mp first).2.2

end Shared

/-- After a unit whose declarations stand apart. -/
theorem shared_buildScopes {s : Specification} (apart : Apart s.declarations) :
    Shared (buildScopes s) s.visits := by
  apply Shared.empty.tour (tour_buildScopes s)
  have names := congrArg (List.map fun name : Ident => name.span.offset) (tour_buildScopes s).names
  rw [List.map_map, List.map_map] at names
  rw [List.nil_append]
  exact names ▸ apart

/-- The name is free, or stands for a symbol of the kind. -/
def Slot.Admits (s : Slot) (t : SymbolTable) : Prop :=
  ∀ id, t.member? s.scope s.name = some id → t.kind id = .ofForward s.kind

/-- A forward declaration leads to a symbol if its slot admits it. -/
theorem Slot.Admits.announce {b : ScopeBuilder} {scope : SymbolId} {d : ForwardDecl}
    (admits : Slot.Admits ⟨scope, d.name.name, d.kind⟩ b.table) (inside : scope < b.table.size) :
    ∃ id, Slot.Holds ⟨scope, d.name.name, d.kind⟩ (b.announce scope d).table id := by
  cases before : b.table.member? scope d.name.name with
  | some id =>
    have holds : Slot.Holds ⟨scope, d.name.name, d.kind⟩ b.table id := ⟨before, admits id before⟩
    exact ⟨id, holds.widens (ScopeBuilder.widens_announce d inside)⟩
  | none => exact ⟨_, Slot.holds_announce inside before⟩

/-- A symbol that awaits its definition is left over once. -/
theorem SymbolTable.count_danglingForwards {t : SymbolTable} {id : SymbolId}
    (forward : (t.symbol id).isForward = true) : (t.danglingForwards.map (·.1)).count id = 1 := by
  apply List.count_eq_one_of_mem t.nodup_danglingForwards
  exact List.mem_map.mpr ((t.mem_danglingForwards id).mpr forward)

theorem Fulfilled.notMem_danglingForwards {t : SymbolTable} {name : Ident} {id : SymbolId}
    (fulfilled : Fulfilled t name id) : id ∉ t.danglingForwards.map (·.1) := by
  intro mem
  have forward := (t.mem_danglingForwards id).mp (List.mem_map.mp mem)
  cases forward.symm.trans (congrArg Prod.snd fulfilled.state)

/-- A forward declaration leads to the symbol of its slot, unless the slot has another symbol. -/
theorem holds_of_announce {s : Specification} (apart : Apart s.declarations)
    {before after : List Visit} {scope : SymbolId} {d : ForwardDecl}
    (reached : s.visits = before ++ .announce scope d :: after)
    (admits : Slot.Admits ⟨scope, d.name.name, d.kind⟩
      (before.foldl Visit.apply ⟨.empty, []⟩).table) :
    ∃ id, Slot.Holds ⟨scope, d.name.name, d.kind⟩ (buildScopes s).table id ∧
      (buildScopes s).table.definedAt? d.name.span = some id := by
  have tour := tour_buildScopes s
  rw [reached] at tour
  obtain ⟨_, _, -, _, rest⟩ := tour.split
  cases rest with
  | cons valid _ rest =>
    obtain ⟨id, holds⟩ := admits.announce valid
    have shared := shared_buildScopes apart
    have mem : .announce scope d ∈ s.visits :=
      reached ▸ List.mem_append_right _ List.mem_cons_self
    have holds := holds.widens rest.widens
    exact ⟨id, holds, shared.announced _ id holds _ mem _ (if_pos rfl)⟩

/-- Every forward declaration is reached. -/
theorem exists_announce {s : Specification} {name : Ident} {kind : ForwardKind}
    (declared : ⟨name, .announced kind⟩ ∈ s.declarations) :
    ∃ scope d, .announce scope d ∈ s.visits ∧ d.name = name ∧ d.kind = kind := by
  obtain ⟨v, mem, declares⟩ := (tour_buildScopes s).exists_visit declared
  cases declares with
  | @announce scope d => exact ⟨scope, d, mem, rfl, rfl⟩

/-- The identifier leads to the symbol of the slot. So does the first definition in it; where there
is none, the symbol is left over. -/
def Slot.Shares (slot : Slot) (s : Specification) (name : Ident) : Prop :=
  let t := (buildScopes s).table
  ∃ id, t.definedAt? name.span = some id ∧ t.member? slot.scope slot.name = some id ∧
    match s.visits.findSome? slot.defined? with
    | some first => t.definedAt? first.span = some id ∧ (t.symbol id).isForward = false ∧
        (t.symbol id).span = first.span ∧ id ∉ t.danglingForwards.map (·.1)
    | none => (t.symbol id).isForward = true ∧ (t.danglingForwards.map (·.1)).count id = 1

/-- Every forward declaration of a text is reached, and all those of one name and kind in a scope
share a symbol with the first definition of that kind, unless the name was taken otherwise. -/
theorem announced_parseText (limit : Nat) (text : String) :
    let s := (parseText limit text).specification
    (∀ name kind, ⟨name, .announced kind⟩ ∈ s.declarations →
      ∃ scope d, .announce scope d ∈ s.visits ∧ d.name = name ∧ d.kind = kind) ∧
    ∀ before scope d after, s.visits = before ++ .announce scope d :: after →
      Slot.Admits ⟨scope, d.name.name, d.kind⟩
        (before.foldl Visit.apply ⟨.empty, []⟩).table →
      Slot.Shares ⟨scope, d.name.name, d.kind⟩ s d.name := by
  intro s
  refine ⟨fun _ _ declared => exists_announce declared, ?_⟩
  intro before scope d after reached admits
  have apart : Apart s.declarations := (wellPlaced_parseText limit text).apart
  obtain ⟨id, holds, place⟩ := holds_of_announce apart reached admits
  have follows := (shared_buildScopes apart).follows _ id holds
  refine ⟨id, place, holds.member, ?_⟩
  cases first : s.visits.findSome? (Slot.defined? ⟨scope, d.name.name, d.kind⟩) with
  | some name =>
    rw [first] at follows
    have fulfilled : Fulfilled (buildScopes s).table name id := follows
    exact ⟨fulfilled.place, congrArg Prod.snd fulfilled.state, congrArg Prod.fst fulfilled.state,
      fulfilled.notMem_danglingForwards⟩
  | none =>
    rw [first] at follows
    exact ⟨follows, SymbolTable.count_danglingForwards follows⟩

/-- A struct that is announced twice in a module, and defined where the module is opened again. -/
def reopenedForward : String :=
  "module M { struct S; struct S; }; module M { struct S { long x; }; };"

theorem announced_parseText_reopened :
    let s := (parseText 100 reopenedForward).specification
    let t := (buildScopes s).table
    (∃ scope d, .announce scope d ∈ s.visits ∧ d.name = ⟨"S", ⟨28, 1, 1, 29⟩⟩ ∧
      d.kind = .struct) ∧
    ∃ id, t.definedAt? ⟨28, 1, 1, 29⟩ = some id ∧ t.member? 1 "S" = some id ∧
      t.definedAt? ⟨52, 1, 1, 53⟩ = some id ∧ (t.symbol id).isForward = false ∧
      (t.symbol id).span = ⟨52, 1, 1, 53⟩ ∧ id ∉ t.danglingForwards.map (·.1) := by
  intro s t
  have declarations : s.declarations =
      [⟨⟨"M", ⟨7, 1, 1, 8⟩⟩, .module⟩, ⟨⟨"S", ⟨18, 1, 1, 19⟩⟩, .announced .struct⟩,
        ⟨⟨"S", ⟨28, 1, 1, 29⟩⟩, .announced .struct⟩, ⟨⟨"M", ⟨41, 1, 1, 42⟩⟩, .module⟩,
        ⟨⟨"S", ⟨52, 1, 1, 53⟩⟩, .defined .struct⟩] := by
    cbv
  have reached : s.visits =
      [.openModule 0 ⟨"M", ⟨7, 1, 1, 8⟩⟩, .announce 1 ⟨.struct, ⟨"S", ⟨18, 1, 1, 19⟩⟩, none⟩] ++
        .announce 1 ⟨.struct, ⟨"S", ⟨28, 1, 1, 29⟩⟩, none⟩ ::
          [.openModule 0 ⟨"M", ⟨41, 1, 1, 42⟩⟩, .complete 1 ⟨"S", ⟨52, 1, 1, 53⟩⟩ .struct] := by
    cbv
  have first : s.visits.findSome? (Slot.defined? ⟨1, "S", .struct⟩) =
      some ⟨"S", ⟨52, 1, 1, 53⟩⟩ := by
    rw [reached]
    rfl
  have admits : Slot.Admits ⟨1, "S", .struct⟩
      ([.openModule 0 ⟨"M", ⟨7, 1, 1, 8⟩⟩, .announce 1 ⟨.struct, ⟨"S", ⟨18, 1, 1, 19⟩⟩, none⟩].foldl
        Visit.apply ⟨.empty, []⟩).table := by
    intro id known
    cases known
    rfl
  obtain ⟨reaches, shares⟩ := announced_parseText 100 reopenedForward
  obtain ⟨id, place, member, state⟩ := shares _ _ _ _ reached admits
  simp only [s] at first
  simp only [first] at state
  exact ⟨reaches _ _ (by rw [declarations]; simp), id, place, member, state⟩

end Idl
