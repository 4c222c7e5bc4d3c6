import Idl.Proofs.Scope.Entered

/-!
The declarations of a unit enter its table one by one: each operation of the builder is a step, and
a walk over a tree makes one step for each declaration of the tree. Main statement:
`entered_buildScopes`.
-/

set_option autoImplicit false

namespace Idl

/-! What is no declaration. -/

theorem calm_addMember (t : SymbolTable) (scope id : SymbolId) (name : String) :
    Calm t (t.addMember scope name id) where
  size := t.size_modify _ _
  kinds i := t.modify_aspect Symbol.kind scope i _ fun _ => rfl
  forwards i := t.modify_aspect Symbol.isForward scope i _ fun _ => rfl
  defining := rfl
  known i other := t.member?_addMember_isSome scope id name i other
  quiet quiet := quiet
  constants i := t.modify_aspect Symbol.constant scope i _ fun _ => rfl

theorem calm_redeclare (t : SymbolTable) (scope previous : SymbolId) (name : Ident) :
    Calm t (t.redeclare scope name previous) where
  size := rfl
  kinds _ := rfl
  forwards _ := rfl
  defining := rfl
  known _ _ known := known
  quiet quiet := by simp [SymbolTable.redeclare] at quiet
  constants _ := rfl

theorem redeclarations_redeclare (t : SymbolTable) (scope previous : SymbolId) (name : Ident) :
    (t.redeclare scope name previous).redeclarations ≠ [] := by
  simp [SymbolTable.redeclare]

namespace Calm

variable {t t' : SymbolTable}

theorem free (calm : Calm t t') {i : SymbolId} {name : String} (free : t'.member? i name = none) :
    t.member? i name = none := by
  by_contra taken
  have known := calm.known i name (Option.isSome_iff_ne_none.mpr taken)
  rw [free] at known
  cases known

theorem defines (calm : Calm t t') {name : Ident} {kind : SymbolKind} {id : SymbolId}
    (defines : Defines t name kind id) : Defines t' name kind id where
  place := by rw [SymbolTable.definedAt?_eq, calm.defining]; exact defines.place
  kind_eq := (calm.kinds id).trans defines.kind_eq
  complete := (calm.forwards id).trans defines.complete
  used := by rw [calm.size]; exact defines.used

theorem awaited (calm : Calm t t') {id : SymbolId} (awaited : Awaited t id) : Awaited t' id where
  forward := (calm.forwards id).trans awaited.forward
  announced := by
    rw [calm.kinds]
    exact awaited.announced

theorem then_step (calm : Calm t t') {u : SymbolTable} {d : Declaration} {id : SymbolId}
    (step : Step t' u d id) : Step t u d id where
  size := by rw [← calm.size]; exact step.size
  kinds i ne := (step.kinds i ne).trans (calm.kinds i)
  forwards i ne := (step.forwards i ne).trans (calm.forwards i)
  reused := by
    rw [← calm.size, ← calm.kinds, ← calm.forwards]
    exact step.reused
  defines := step.defines
  opens := step.opens
  untyped plain large := step.untyped plain (by rw [calm.size]; exact large)
  elsewhere offset ne := (step.elsewhere offset ne).trans (by rw [calm.defining])
  known i name known := step.known i name (calm.known i name known)
  quiet quiet := calm.quiet (step.quiet quiet)
  lists owner role quiet := by
    obtain ⟨i, place, free, known⟩ := step.lists owner role quiet
    refine ⟨i, ?_, calm.free free, known⟩
    rw [SymbolTable.definedAt?_eq, ← calm.defining]
    exact place
  unfailed i failed := (calm.constants i).symm.trans (step.unfailed i failed)

end Calm

namespace Step

variable {t t' : SymbolTable} {d : Declaration} {id : SymbolId}

theorem then_calm (step : Step t t' d id) {u : SymbolTable} (calm : Calm t' u) :
    Step t u d id where
  size := by rw [calm.size]; exact step.size
  kinds i ne := (calm.kinds i).trans (step.kinds i ne)
  forwards i ne := (calm.forwards i).trans (step.forwards i ne)
  reused := by
    rw [calm.kinds, calm.forwards]
    exact step.reused
  defines kind role := calm.defines (step.defines kind role)
  opens role := by
    rw [SymbolTable.definedAt?_eq, calm.defining]
    exact step.opens role
  untyped plain large type := by
    rw [calm.kinds] at type
    exact calm.awaited (step.untyped plain large type)
  elsewhere offset ne := by rw [calm.defining]; exact step.elsewhere offset ne
  known i name known := calm.known i name (step.known i name known)
  quiet quiet := step.quiet (calm.quiet quiet)
  lists owner role quiet := by
    obtain ⟨i, place, free, known⟩ := step.lists owner role (calm.quiet quiet)
    exact ⟨i, place, free, calm.known i _ known⟩
  unfailed i failed := step.unfailed i ((calm.constants i).symm.trans failed)

/-- The symbol of a declaration may get a value at once, if it is no failure. -/
theorem setConstant (step : Step t t' d id) (i : SymbolId) (slot : ConstSlot)
    (unfailed : slot ≠ .failed) : Step t (t'.setConstant i slot) d id := by
  have kinds (j : SymbolId) : (t'.setConstant i slot).kind j = t'.kind j :=
    t'.modify_aspect Symbol.kind i j _ fun _ => rfl
  have forwards (j : SymbolId) :
      ((t'.setConstant i slot).symbol j).isForward = (t'.symbol j).isForward :=
    t'.modify_aspect Symbol.isForward i j _ fun _ => rfl
  have members (j : SymbolId) (name : String) :
      (t'.setConstant i slot).member? j name = t'.member? j name :=
    congrArg (List.lookup name) (t'.modify_aspect Symbol.members i j _ fun _ => rfl)
  have constants (j : SymbolId) : ((t'.setConstant i slot).symbol j).constant = slot ∨
      ((t'.setConstant i slot).symbol j).constant = (t'.symbol j).constant := by
    simp only [SymbolTable.setConstant, SymbolTable.symbol_modify]
    split
    · exact .inl rfl
    · exact .inr rfl
  constructor
  case size => rw [SymbolTable.setConstant, SymbolTable.size_modify]; exact step.size
  case kinds => exact fun j ne => (kinds j).trans (step.kinds j ne)
  case forwards => exact fun j ne => (forwards j).trans (step.forwards j ne)
  case reused => rw [kinds, forwards]; exact step.reused
  case defines =>
    intro kind role
    have defines := step.defines kind role
    exact ⟨defines.place, (kinds id).trans defines.kind_eq, (forwards id).trans defines.complete,
      by rw [SymbolTable.setConstant, SymbolTable.size_modify]; exact defines.used⟩
  case untyped =>
    intro plain large type
    rw [kinds] at type
    have awaited := step.untyped plain large type
    exact ⟨(forwards id).trans awaited.forward, by rw [kinds]; exact awaited.announced⟩
  case opens => exact step.opens
  case elsewhere => exact step.elsewhere
  case known => intro j name known; rw [members]; exact step.known j name known
  case quiet => exact step.quiet
  case lists => simp only [members]; exact step.lists
  case unfailed =>
    intro j failed
    rcases constants j with eq | eq
    · exact absurd (eq.symm.trans failed) unfailed
    · exact step.unfailed j (eq.symm.trans failed)

/-- A name that is listed by its owner is a name that is entered in the owner's scope. -/
theorem relist {name owner : Ident} {scope : SymbolId}
    (step : Step t t' ⟨name, .module⟩ id) (place : t.definedAt? owner.span = some scope)
    (free : t.member? scope name.name = none)
    (known : (t'.member? scope name.name).isSome = true) :
    Step t t' ⟨name, .listed owner⟩ id where
  size := step.size
  kinds := step.kinds
  forwards := step.forwards
  reused := by
    rcases step.reused with large | ⟨-, role⟩ | ⟨-, unchanged⟩
    · exact .inl large
    · cases role
    · exact .inr (.inr ⟨(fun _ role => by cases role), unchanged⟩)
  defines _ role := by cases role
  opens role := by cases role
  untyped _ := step.untyped fun _ role => by cases role
  elsewhere := step.elsewhere
  known := step.known
  quiet := step.quiet
  lists other role _ := by
    cases role
    exact ⟨scope, place, free, known⟩
  unfailed := step.unfailed

end Step

/-! The declarations. -/

/-- A symbol of the kind may stand for a name of the role. -/
def Role.Fits (role : Role) (kind : SymbolKind) : Prop :=
  role = .defined kind ∨ (∀ k, role ≠ .defined k) ∧ kind.isType = false

theorem Role.defined_fits (kind : SymbolKind) : (Role.defined kind).Fits kind := .inl rfl

theorem Role.listed_fits (owner : Ident) {kind : SymbolKind} (untyped : kind.isType = false) :
    (Role.listed owner).Fits kind := .inr ⟨fun _ role => by (cases role), untyped⟩

theorem Role.module_fits {kind : SymbolKind} (untyped : kind.isType = false) :
    Role.module.Fits kind := .inr ⟨fun _ role => by (cases role), untyped⟩

theorem step_addDetached (t : SymbolTable) (scope : SymbolId) (name : Ident) (kind : SymbolKind)
    {role : Role} (fits : role.Fits kind)
    (unlisted : ∀ owner, role = .listed owner → t.redeclarations ≠ []) :
    Step t (t.addDetached scope name kind).2 ⟨name, role⟩ t.size := by
  have other {i : SymbolId} (ne : i ≠ t.size) :
      (t.addDetached scope name kind).2.symbol i = t.symbol i := by
    rw [t.symbol_addDetached, if_neg ne]
  have new : (t.addDetached scope name kind).2.symbol t.size =
      Symbol.fresh name.name kind (some scope) name.span := by
    rw [t.symbol_addDetached, if_pos rfl]
  constructor
  case size => simp
  case kinds => exact fun i ne => congrArg Symbol.kind (other ne)
  case forwards => exact fun i ne => congrArg Symbol.isForward (other ne)
  case reused => exact .inl (Nat.le_refl _)
  case defines =>
    intro k role_eq
    rcases fits with fit | ⟨plain, -⟩
    · cases role_eq.symm.trans fit
      exact ⟨by simp [SymbolTable.definedAt?_eq, t.defining_addDetached],
        congrArg Symbol.kind new, congrArg Symbol.isForward new, by simp⟩
    · exact absurd role_eq (plain k)
  case opens => exact fun _ => by simp [SymbolTable.definedAt?_eq, t.defining_addDetached]
  case untyped =>
    intro plain _ type
    rcases fits with fit | ⟨-, untyped⟩
    · exact absurd fit (plain kind)
    · rw [SymbolTable.kind, new] at type
      exact absurd (type.symm.trans untyped) (by decide)
  case elsewhere =>
    intro offset ne
    have unequal : (offset == name.span.offset) = false := by simpa using ne
    rw [t.defining_addDetached, List.lookup_cons, unequal]
  case known =>
    intro i other known
    rw [t.member?_addDetached]
    exact known
  case quiet => exact fun quiet => quiet
  case lists => exact fun owner role quiet => absurd quiet (unlisted owner role)
  case unfailed =>
    intro i failed
    rw [t.addDetached_aspect Symbol.constant scope i name kind rfl] at failed
    exact failed

theorem step_add (t : SymbolTable) (scope : SymbolId) (name : Ident) (kind : SymbolKind)
    {role : Role} (fits : role.Fits kind) (unlisted : ∀ owner, role ≠ .listed owner) :
    Step t (t.add scope name kind).2 ⟨name, role⟩ t.size :=
  (step_addDetached t scope name kind fits fun owner role => absurd role (unlisted owner)).then_calm
    (calm_addMember _ _ _ _)

/-- A name that its owner does not hold is listed in it. -/
theorem step_add_listed (t : SymbolTable) (scope : SymbolId) (name : Ident) (kind : SymbolKind)
    {owner : Ident} (untyped : kind.isType = false)
    (place : t.definedAt? owner.span = some scope) (used : scope < t.size)
    (free : t.member? scope name.name = none) :
    Step t (t.add scope name kind).2 ⟨name, .listed owner⟩ t.size := by
  have plain := step_add t scope name kind (Role.module_fits untyped) fun _ role => by cases role
  refine plain.relist place free ?_
  have inside : scope < (t.addDetached scope name kind).2.size := by
    rw [t.size_addDetached]
    exact Nat.lt_succ_of_lt used
  have still : (t.addDetached scope name kind).2.member? scope name.name = none := by
    rw [t.member?_addDetached]
    exact free
  simp only [SymbolTable.add]
  rw [SymbolTable.member?_addMember _ _ _ _ _ _ inside, if_pos ⟨rfl, rfl, still⟩]
  rfl

theorem step_addDuplicate (b : ScopeBuilder) (scope : SymbolId) (name : Ident) (kind : SymbolKind)
    (previous : SymbolId) {role : Role} (fits : role.Fits kind) :
    Step b.table (b.addDuplicate scope name kind previous).2.table ⟨name, role⟩
      (b.addDuplicate scope name kind previous).1 :=
  (calm_redeclare b.table scope previous name).then_step
    (step_addDetached _ scope name kind fits fun _ _ =>
      redeclarations_redeclare b.table scope previous name)

theorem step_declare (b : ScopeBuilder) (scope : SymbolId) (name : Ident) (kind : SymbolKind) :
    Step b.table (b.declare scope name kind).2.table ⟨name, .defined kind⟩
      (b.declare scope name kind).1 := by
  rw [ScopeBuilder.declare]
  split
  · exact step_add b.table scope name kind (Role.defined_fits kind) fun _ role => by cases role
  · exact step_addDuplicate b scope name kind _ (Role.defined_fits kind)

/-- A name is listed in the scope that its owner defines, or declared twice. -/
theorem step_declare_listed (b : ScopeBuilder) (scope : SymbolId) (name : Ident)
    (kind : SymbolKind) {owner : Ident} (untyped : kind.isType = false)
    (place : b.table.definedAt? owner.span = some scope) (used : scope < b.table.size) :
    Step b.table (b.declare scope name kind).2.table ⟨name, .listed owner⟩
      (b.declare scope name kind).1 := by
  rw [ScopeBuilder.declare]
  split
  · next free => exact step_add_listed b.table scope name kind untyped place used free
  · exact step_addDuplicate b scope name kind _ (Role.listed_fits owner untyped)

/-- An identifier is one more place of a symbol, and defines nothing itself. -/
theorem step_bindSpan (t : SymbolTable) (name : Ident) (id : SymbolId) {role : Role}
    (plain : ∀ kind, role ≠ .defined kind) (unlisted : ∀ owner, role ≠ .listed owner) :
    Step t (t.bindSpan name.span id) ⟨name, role⟩ id where
  size := Nat.le_refl _
  kinds _ _ := rfl
  forwards _ _ := rfl
  reused := .inr (.inr ⟨plain, rfl, rfl⟩)
  defines kind role := absurd role (plain kind)
  opens _ := by simp [SymbolTable.definedAt?_eq, SymbolTable.bindSpan]
  untyped _ large type := by
    have root : (t.bindSpan name.span id).kind id = .root := t.kind_of_size_le large
    rw [root] at type
    cases type
  elsewhere offset ne := by
    have unequal : (offset == name.span.offset) = false := by simpa using ne
    simp only [SymbolTable.bindSpan, List.lookup_cons, unequal]
  known _ _ known := known
  quiet quiet := quiet
  lists owner role := absurd role (unlisted owner)
  unfailed _ failed := failed

/-- A name that is only announced may be left out. -/
theorem step_silent (t : SymbolTable) (name : Ident) (kind : ForwardKind) :
    Step t t ⟨name, .announced kind⟩ SymbolTable.rootId where
  size := Nat.le_refl _
  kinds _ _ := rfl
  forwards _ _ := rfl
  reused := .inr (.inr ⟨fun _ role => by (cases role), rfl, rfl⟩)
  defines _ role := by cases role
  opens role := by cases role
  untyped _ large type := by
    rw [t.kind_of_size_le large] at type
    cases type
  elsewhere _ _ := rfl
  known _ _ known := known
  quiet quiet := quiet
  lists _ role := by cases role
  unfailed _ failed := failed

theorem step_openModule (b : ScopeBuilder) (scope : SymbolId) (name : Ident) :
    Step b.table (b.openModule scope name).2.table ⟨name, .module⟩
      (b.openModule scope name).1 := by
  rw [ScopeBuilder.openModule]
  split
  · exact step_add b.table scope name .module (Role.module_fits rfl) fun _ role => by cases role
  · split
    · exact step_bindSpan b.table name _ (fun _ role => by cases role) fun _ role => by cases role
    · exact step_addDuplicate b scope name .module _ (Role.module_fits rfl)

/-- A definition takes over a symbol of its kind that awaits it. -/
theorem step_takeOver (t : SymbolTable) (name : Ident) (id : SymbolId)
    (awaited : (t.symbol id).isForward = true) :
    Step t ((t.modify id fun s => { s with isForward := false, span := name.span }).bindSpan
      name.span id) ⟨name, .defined (t.kind id)⟩ id := by
  have used := t.lt_size_of_isForward awaited
  have kinds (i : SymbolId) :
      (t.modify id fun s => { s with isForward := false, span := name.span }).kind i = t.kind i :=
    t.modify_aspect Symbol.kind id i _ fun _ => rfl
  have constant (i : SymbolId) : ((t.modify id fun s =>
      { s with isForward := false, span := name.span }).symbol i).constant =
        (t.symbol i).constant :=
    t.modify_aspect Symbol.constant id i _ fun _ => rfl
  constructor
  case size => exact Nat.le_of_eq (t.size_modify _ _).symm
  case kinds => exact fun i _ => kinds i
  case forwards =>
    intro i ne
    exact congrArg Symbol.isForward ((t.symbol_modify id i _).trans (if_neg fun h => ne h.1))
  case reused => exact .inr (.inl ⟨awaited, rfl⟩)
  case defines =>
    intro kind role
    cases role
    refine ⟨?_, kinds id, ?_, ?_⟩
    · simp [SymbolTable.definedAt?_eq, SymbolTable.bindSpan]
    · exact congrArg Symbol.isForward ((t.symbol_modify id id _).trans (if_pos ⟨rfl, used⟩))
    · exact Nat.lt_of_lt_of_eq used (t.size_modify _ _).symm
  case opens => exact fun role => by cases role
  case untyped => exact fun plain => absurd rfl (plain _)
  case elsewhere =>
    intro offset ne
    have unequal : (offset == name.span.offset) = false := by simpa using ne
    simp only [SymbolTable.bindSpan, List.lookup_cons, unequal, SymbolTable.defining_modify]
  case known =>
    intro i other known
    have same := t.modify_aspect Symbol.members id i
      (fun s => { s with isForward := false, span := name.span }) fun _ => rfl
    exact (congrArg (fun names => (names.lookup other).isSome) same).trans known
  case quiet => exact fun quiet => quiet
  case lists => exact fun _ role => by cases role
  case unfailed => exact fun i failed => (constant i).symm.trans failed

theorem step_complete (b : ScopeBuilder) (scope : SymbolId) (name : Ident) (kind : ForwardKind) :
    Step b.table (b.complete scope name kind).2.table ⟨name, .defined (.ofForward kind)⟩
      (b.complete scope name kind).1 := by
  have fits := Role.defined_fits (.ofForward kind)
  simp only [ScopeBuilder.complete]
  split
  · exact step_add b.table scope name _ fits fun _ role => by cases role
  · split
    · exact step_addDuplicate b scope name _ _ fits
    · split
      · exact step_addDetached b.table scope name _ fits fun _ role => by cases role
      · next awaited same =>
        rw [← Decidable.not_not.mp same]
        exact step_takeOver b.table name _ (by simpa using awaited)

/-- A type that is announced gets a symbol that awaits its definition. -/
theorem step_announce_new (t : SymbolTable) (scope : SymbolId) (name : Ident)
    (kind : ForwardKind) :
    Step t ((t.add scope name (.ofForward kind)).2.modify t.size fun s =>
      { s with isForward := true }) ⟨name, .announced kind⟩ t.size := by
  have size : (t.add scope name (.ofForward kind)).2.size = t.size + 1 :=
    (SymbolTable.size_modify _ _ _).trans (t.size_addDetached scope name _)
  have added {α : Type} (aspect : Symbol → α) (names : ∀ (s : Symbol) m,
      aspect { s with members := m } = aspect s) (i : SymbolId) :
      aspect ((t.add scope name (.ofForward kind)).2.symbol i) =
        aspect ((t.addDetached scope name (.ofForward kind)).2.symbol i) :=
    SymbolTable.modify_aspect _ aspect scope i _ fun s => names s _
  have other {α : Type} (aspect : Symbol → α) (names : ∀ (s : Symbol) m,
      aspect { s with members := m } = aspect s) {i : SymbolId} (ne : i ≠ t.size) :
      aspect (((t.add scope name (.ofForward kind)).2.modify t.size fun s =>
        { s with isForward := true }).symbol i) = aspect (t.symbol i) := by
    rw [SymbolTable.symbol_modify, if_neg fun h => ne h.1, added aspect names,
      t.symbol_addDetached, if_neg ne]
  have plain {α : Type} (aspect : Symbol → α) (names : ∀ (s : Symbol) m,
      aspect { s with members := m } = aspect s)
      (forward : ∀ s : Symbol, aspect { s with isForward := true } = aspect s)
      (fresh : aspect (Symbol.fresh name.name (.ofForward kind) (some scope) name.span) =
        aspect Symbol.root) (i : SymbolId) :
      aspect (((t.add scope name (.ofForward kind)).2.modify t.size fun s =>
        { s with isForward := true }).symbol i) = aspect (t.symbol i) := by
    rw [SymbolTable.modify_aspect _ aspect t.size i _ forward, added aspect names,
      t.addDetached_aspect aspect scope i name _ fresh]
  constructor
  case size =>
    rw [SymbolTable.size_modify, size]
    exact Nat.le_succ _
  case kinds => exact fun i ne => other Symbol.kind (fun _ _ => rfl) ne
  case forwards => exact fun i ne => other Symbol.isForward (fun _ _ => rfl) ne
  case reused => exact .inl (Nat.le_refl _)
  case defines => exact fun _ role => by cases role
  case opens => exact fun role => by cases role
  case untyped =>
    intro _ _ _
    have used : t.size < (t.add scope name (.ofForward kind)).2.size := by
      rw [size]
      exact Nat.lt_succ_self _
    refine ⟨by rw [SymbolTable.symbol_modify, if_pos ⟨rfl, used⟩], kind, ?_⟩
    rw [SymbolTable.kind, SymbolTable.symbol_modify, if_pos ⟨rfl, used⟩]
    refine (added Symbol.kind (fun _ _ => rfl) t.size).trans ?_
    rw [t.symbol_addDetached, if_pos rfl]
    rfl
  case elsewhere =>
    intro offset ne
    have unequal : (offset == name.span.offset) = false := by simpa using ne
    have defining : ((t.add scope name (.ofForward kind)).2.modify t.size fun s =>
        { s with isForward := true }).defining = (name.span.offset, t.size) :: t.defining := rfl
    rw [defining, List.lookup_cons, unequal]
  case known =>
    intro i key known
    have before : ((t.addDetached scope name (.ofForward kind)).2.member? i key).isSome = true := by
      rw [t.member?_addDetached]
      exact known
    have still : ((t.add scope name (.ofForward kind)).2.member? i key).isSome = true :=
      SymbolTable.member?_addMember_isSome _ _ _ _ _ _ before
    have same := SymbolTable.modify_aspect (t.add scope name (.ofForward kind)).2 Symbol.members
      t.size i (fun s => { s with isForward := true }) fun _ => rfl
    exact (congrArg (fun names => (names.lookup key).isSome) same).trans still
  case quiet => exact fun quiet => quiet
  case lists => exact fun _ role => by cases role
  case unfailed =>
    intro i failed
    exact (plain Symbol.constant (fun _ _ => rfl) (fun _ => rfl) rfl i).symm.trans failed

theorem step_announce (b : ScopeBuilder) (scope : SymbolId) (d : ForwardDecl) :
    ∃ id, Step b.table (b.announce scope d).table ⟨d.name, .announced d.kind⟩ id := by
  simp only [ScopeBuilder.announce]
  split
  · exact ⟨_, step_announce_new b.table scope d.name d.kind⟩
  · split
    · exact ⟨_, step_bindSpan b.table d.name _ (fun _ role => by cases role) fun _ role => by
        cases role⟩
    · exact ⟨_, (step_silent b.table d.name d.kind).then_calm (calm_redeclare _ _ _ _)⟩

theorem step_enumerator (b : ScopeBuilder) (scope enum : SymbolId) (name : Ident) (ordinal : Nat)
    {owner : Ident} (defines : Defines b.table owner .enum enum) :
    ∃ id, Step b.table (ScopeBuilder.enumerator scope enum b name ordinal).table
      ⟨name, .listed owner⟩ id := by
  simp only [ScopeBuilder.enumerator]
  split
  · refine ⟨_, (step_addDuplicate b enum name (.enumerator enum ordinal) _
      (Role.listed_fits owner rfl)).setConstant _ _ (by simp)⟩
  · next free =>
    have step := (step_add_listed b.table enum name (.enumerator enum ordinal) rfl defines.place
      defines.used free).setConstant b.table.size
      (.value ⟨.enum enum, .enumerator enum ordinal name.name⟩) (by simp)
    split
    · exact ⟨_, step.then_calm (calm_redeclare _ _ _ _)⟩
    · exact ⟨_, step.then_calm (calm_addMember _ _ _ _)⟩

end Idl
