import Idl.Proofs.Scope.Arrival
import Idl.Proofs.Scope.Forget
import Idl.Proofs.Scope.Inventory
import Idl.Proofs.Scope.Visits

/-!
A module that is closed and opened again. Its symbols are those of the module in one piece: opening
it again enters nothing and only makes one more identifier lead to its symbol. Main statement:
`reopened_buildScopes`.
-/

set_option autoImplicit false

namespace Idl

/-! Arriving at a place. -/

namespace Site

theorem isSome_arrive (c : Site) (scope : SymbolId) (b : ScopeBuilder) :
    (c.arrive scope b).1.isSome = c.isOpen := by
  induction c generalizing scope b with
  | hole => rfl
  | beside before inner after ih => exact ih _ _
  | module as name inner span ih => exact ih _ _
  | body as owner before inner after span ih => exact ih _ _
  | annotationDecl as name members inner span => rfl

end Site

namespace ScopeBuilder

variable {P : Ident → Prop} {R : ScopeBuilder → ScopeBuilder → Prop}

theorem Keeps.enter (keeps : Keeps P R) (owner : Owner) (scope : SymbolId) {x y : ScopeBuilder}
    (related : R x y) (named : P owner.name) :
    Together R (owner.enter scope x) (owner.enter scope y) := by
  cases owner with
  | interface name _ _ => exact keeps.complete scope .interface related named
  | value name _ _ _ _ => exact keeps.complete scope .value related named
  | event name _ _ _ _ => exact keeps.complete scope .event related named
  | component name _ _ => exact keeps.complete scope .component related named
  | home name _ _ _ _ => exact keeps.declare scope .home related named (by decide)

theorem Keeps.arrive (keeps : Keeps P R) (c : Site) (scope : SymbolId) {x y : ScopeBuilder}
    (related : R x y) (named : NamedBy P c.ahead) :
    R (c.arrive scope x).2 (c.arrive scope y).2 := by
  induction c generalizing scope x y with
  | hole => exact related
  | beside before inner after ih =>
    rw [Site.ahead, namedBy_append] at named
    exact ih scope (keeps.definitions scope before x y related named.1) named.2
  | module as name inner span ih =>
    rw [Site.ahead, namedBy_cons] at named
    exact (keeps.openModule scope related named.1).inner (f := fun id b => (inner.arrive id b).2)
      fun id b c related => ih id related named.2
  | body as owner before inner after span ih =>
    rw [Site.ahead, namedBy_cons, namedBy_append] at named
    exact (keeps.enter owner scope related named.1).inner
      (f := fun id b => (inner.arrive id (ScopeBuilder.exports id before b)).2)
      fun id b c related => ih id (Keeps.exports keeps id before b c related named.2.1) named.2.2
  | annotationDecl as name members inner span => exact related

theorem lt_size_enter (owner : Owner) (scope : SymbolId) (b : ScopeBuilder) :
    (owner.enter scope b).1 < (owner.enter scope b).2.table.size := by
  cases owner with
  | interface name _ _ => exact lt_size_complete .interface
  | value name _ _ _ _ => exact lt_size_complete .value
  | event name _ _ _ _ => exact lt_size_complete .event
  | component name _ _ => exact lt_size_complete .component
  | home name _ _ _ _ => exact lt_size_declare .home

/-- The builder arrives in a scope that is in use. -/
theorem lt_size_arrive (c : Site) {scope : SymbolId} {b : ScopeBuilder}
    (inside : scope < b.table.size) {id : SymbolId} (arrived : (c.arrive scope b).1 = some id) :
    id < (c.arrive scope b).2.table.size := by
  induction c generalizing scope b with
  | hole =>
    cases arrived
    exact inside
  | beside before inner after ih =>
    have tour := tour_definitions scope before b inside
    exact ih (tour.widens.lt_size inside) arrived
  | module as name inner span ih => exact ih lt_size_openModule arrived
  | body as owner before inner after span ih =>
    have entered := lt_size_enter owner scope b
    have tour := tour_exports _ before _ entered
    exact ih (tour.widens.lt_size entered) arrived
  | annotationDecl as name members inner span => cases arrived

/-! Opening a module. -/

variable {b : ScopeBuilder} {scope id : SymbolId} {name : Ident}

/-- The name leads to a module, if to anything. -/
def Admits (b : ScopeBuilder) (scope : SymbolId) (name : Ident) : Prop :=
  ∀ id, b.table.member? scope name.name = some id → b.table.kind id = .module

/-- The name leads to the module. -/
structure Opened (t : SymbolTable) (scope : SymbolId) (name : Ident) (id : SymbolId) : Prop where
  member : t.member? scope name.name = some id
  kind : t.kind id = .module

theorem Opened.widens {t u : SymbolTable} (opened : Opened t scope name id) (widens : Widens t u) :
    Opened u scope name id := by
  have inside := t.lt_size_of_kind_ne_root (by rw [opened.kind]; decide)
  exact ⟨widens.members _ _ _ opened.member, (widens.kind inside).trans opened.kind⟩

theorem opened_openModule (inside : scope < b.table.size) (admits : b.Admits scope name) :
    Opened (b.openModule scope name).2.table scope name (b.openModule scope name).1 := by
  rw [openModule]
  split
  · next free =>
    exact ⟨SymbolTable.member?_add .module inside free, b.table.kind_add scope name .module⟩
  · next existing found =>
    rw [if_pos (admits existing found)]
    exact ⟨found, admits existing found⟩

/-- A module is opened again under its name: one more identifier defines it. -/
theorem openModule_of_opened {again : Ident} (opened : Opened b.table scope name id)
    (same : again.name = name.name) :
    b.openModule scope again = (id, b.modify (·.bindSpan again.span id)) := by
  simp only [openModule, same, opened.member, opened.kind, if_true]

theorem forgotten_openModule {again : Ident} (opened : Opened b.table scope name id)
    (same : again.name = name.name) (unopened : Forgotten again.span.offset none b b) :
    Forgotten again.span.offset (some id) (b.openModule scope again).2 b := by
  rw [openModule_of_opened opened same]
  constructor
  case eq =>
    simp only [forget, ScopeBuilder.modify, b.table.forget_bindSpan]
    exact unopened.eq
  case found => simp [ScopeBuilder.modify, SymbolTable.bindSpan]

end ScopeBuilder

open ScopeBuilder

/-- A module somewhere in a unit, with a cut through its definitions. -/
structure ModuleCut where
  imports : List Import
  site : Site
  annotations : List AnnotationUse
  name : Ident
  first : List Definition
  second : List Definition
  span : Span
  /-- The name where the module is opened again. -/
  again : Ident
  firstSpan : Span
  secondSpan : Span

namespace ModuleCut

/-- The module in one piece. -/
def piece (p : ModuleCut) : List Definition :=
  [⟨p.annotations, .module ⟨p.name, p.first ++ p.second⟩, p.span⟩]

/-- The module closed at the cut and opened again. -/
def pieces (p : ModuleCut) : List Definition :=
  [⟨p.annotations, .module ⟨p.name, p.first⟩, p.firstSpan⟩,
    ⟨[], .module ⟨p.again, p.second⟩, p.secondSpan⟩]

/-- The unit with the module in one piece. -/
def whole (p : ModuleCut) : Specification := ⟨p.imports, p.site.fill p.piece⟩

/-- The unit with the module opened again. -/
def parts (p : ModuleCut) : Specification := ⟨p.imports, p.site.fill p.pieces⟩

/-- What is declared in the module and behind it. -/
def later (p : ModuleCut) : List Declaration :=
  allDeclarations p.first ++ allDeclarations p.second ++ p.site.behind

/-- The module may be opened again. Both of its names stand at places of their own, so that each
is known by its place. -/
structure Reopens (p : ModuleCut) : Prop where
  same : p.again.name = p.name.name
  /-- No other identifier that defines something stands where the module is opened again. -/
  fresh : NamedBy (Ident.Avoids p.again.span.offset) (allInventory p.whole.definitions)
  /-- Nothing is declared later where the module was opened first. -/
  own : p.site.isOpen = true → NamedBy (Ident.Avoids p.name.span.offset) p.later
  /-- The scope of the module does not hold its name for anything but a module. -/
  admits : ∀ scope b, p.site.arrive SymbolTable.rootId ⟨.empty, []⟩ = (some scope, b) →
    b.Admits scope p.name

end ModuleCut

theorem definitions_pieces (scope : SymbolId) (p : ModuleCut) (b : ScopeBuilder) :
    definitions scope p.pieces b =
      let x := b.openModule scope p.name
      let y := (definitions x.1 p.first x.2).openModule scope p.again
      definitions y.1 p.second y.2 := by
  rw [ModuleCut.pieces, definitions, definition, definitionKind, definitions_single, definitionKind]

theorem definitions_piece (scope : SymbolId) (p : ModuleCut) (b : ScopeBuilder) :
    definitions scope p.piece b =
      let x := b.openModule scope p.name
      definitions x.1 p.second (definitions x.1 p.first x.2) := by
  rw [ModuleCut.piece, definitions_single, definitionKind]
  exact definitions_append _ _ _ _

namespace ModuleCut

variable {p : ModuleCut}

theorem declarations_whole (p : ModuleCut) : p.whole.declarations =
    p.site.ahead ++ ((bif p.site.isOpen then ⟨p.name, .module⟩ ::
      (allDeclarations p.first ++ allDeclarations p.second) else []) ++ p.site.behind) := by
  rw [whole, Specification.declarations, Site.declarations_fill]
  simp only [piece, allDeclarations, Definition.declarations, kindDeclarations,
    allDeclarations_append, List.append_nil]

/-- Where no two declarations begin at one place, nothing is declared later at that of the
module. -/
theorem own_of_apart (apart : Apart p.whole.declarations) (isOpen : p.site.isOpen = true) :
    NamedBy (Ident.Avoids p.name.span.offset) p.later := by
  rw [declarations_whole, isOpen, cond_true, List.cons_append] at apart
  rw [Apart, List.map_append, List.map_cons] at apart
  have distinct := (List.nodup_cons.mp (List.nodup_append.mp apart).2.1).1
  intro d mem same
  exact distinct (List.mem_map.mpr ⟨d, mem, same⟩)

namespace Reopens

theorem named (reopens : p.Reopens) : NamedBy (Ident.Avoids p.again.span.offset)
    (p.site.ahead ++ ((bif p.site.isOpen then ⟨p.name, .module⟩ ::
      (allDeclarations p.first ++ allDeclarations p.second) else []) ++ p.site.behind)) := by
  rw [← declarations_whole]
  exact reopens.fresh.mono (allDeclarations_subset_inventory _)

theorem behind (reopens : p.Reopens) :
    NamedBy (Ident.Avoids p.again.span.offset) p.site.behind :=
  (namedBy_append.mp (namedBy_append.mp reopens.named).2).2

theorem inside (reopens : p.Reopens) (isOpen : p.site.isOpen = true) :
    p.name.Avoids p.again.span.offset ∧
      NamedBy (Ident.Avoids p.again.span.offset) (allDeclarations p.first) ∧
      NamedBy (Ident.Avoids p.again.span.offset) (allDeclarations p.second) := by
  have named := (namedBy_append.mp (namedBy_append.mp reopens.named).2).1
  rw [isOpen] at named
  obtain ⟨name, parts⟩ := namedBy_cons.mp named
  exact ⟨name, namedBy_append.mp parts⟩

end Reopens

end ModuleCut

section

variable {p : ModuleCut} {scope id : SymbolId} {b : ScopeBuilder}

/-- Before the module is opened again, nothing is defined where it will be. -/
theorem forgotten_arrive (reopens : p.Reopens) :
    let arrived := (p.site.arrive SymbolTable.rootId ⟨.empty, []⟩).2
    Forgotten p.again.span.offset none arrived arrived :=
  (keeps_forgotten p.again.span.offset none).arrive p.site SymbolTable.rootId ⟨rfl, rfl⟩
    (namedBy_append.mp reopens.named).1

/-- Both identifiers lead to the module once it has been opened again. -/
theorem reopened_definitions (reopens : p.Reopens) (isOpen : p.site.isOpen = true)
    (before : Forgotten p.again.span.offset none b b) (inside : scope < b.table.size)
    (admits : b.Admits scope p.name) : ∃ id,
    Forgotten p.again.span.offset (some id) (definitions scope p.pieces b)
      (definitions scope p.piece b) ∧
    Forgotten p.name.span.offset (some id) (definitions scope p.pieces b)
      ((definitions scope p.pieces b).forget p.name.span.offset) := by
  obtain ⟨name, first, second⟩ := reopens.inside isOpen
  obtain ⟨ownFirst, ownSecond⟩ := namedBy_append.mp (namedBy_append.mp (reopens.own isOpen)).1
  have opened := opened_openModule inside admits
  have place := (step_openModule b scope p.name).opens rfl
  have entered := (keeps_forgotten p.again.span.offset none).openModule scope before name
  rw [definitions_piece, definitions_pieces]
  generalize b.openModule scope p.name = x at *
  have used : x.1 < x.2.table.size :=
    SymbolTable.lt_size_of_kind_ne_root _ (by rw [opened.kind]; decide)
  have tour := tour_definitions x.1 p.first x.2 used
  -- the definitions ahead of the cut are entered the same, and leave both places as they are
  have unopened := (keeps_forgotten p.again.span.offset none).definitions x.1 p.first _ _
    entered.2 first
  have named := (keeps_forgotten p.name.span.offset (some x.1)).definitions x.1 p.first x.2
    (x.2.forget p.name.span.offset) ⟨rfl, place⟩ ownFirst
  have stillOpened := opened.widens tour.widens
  dsimp only
  generalize definitions x.1 p.first x.2 = c at *
  have reopened := forgotten_openModule stillOpened reopens.same unopened
  have stillNamed := (keeps_forgotten p.name.span.offset (some x.1)).openModule scope
    ⟨rfl, named.found⟩ (Ne.symm name)
  have sameModule := congrArg Prod.fst (openModule_of_opened stillOpened reopens.same)
  rw [sameModule]
  generalize c.openModule scope p.again = y at *
  have again := (keeps_forgotten p.again.span.offset (some x.1)).definitions x.1 p.second _ _
    reopened second
  have own := (keeps_forgotten p.name.span.offset (some x.1)).definitions x.1 p.second _ _
    ⟨rfl, stillNamed.2.found⟩ ownSecond
  exact ⟨x.1, again, rfl, own.found⟩

end

/-- The symbols of a module that is opened again are those of the module in one piece, and where it
is opened again no more than it is defined. -/
theorem reopened_buildScopes {p : ModuleCut} (reopens : p.Reopens) :
    buildScopes p.whole = (buildScopes p.parts).forget p.again.span.offset ∧
      (p.site.isOpen = true → (buildScopes p.parts).table.definedAt? p.again.span =
        (buildScopes p.parts).table.definedAt? p.name.span) := by
  obtain ⟨depart, filled, related⟩ :=
    exists_departure p.site SymbolTable.rootId ⟨.empty, []⟩
  rw [buildScopes, buildScopes, ModuleCut.whole, ModuleCut.parts]
  simp only [filled]
  have arrived := forgotten_arrive reopens
  have isSome := p.site.isSome_arrive SymbolTable.rootId ⟨.empty, []⟩
  have inside (id : SymbolId) :=
    @lt_size_arrive p.site SymbolTable.rootId ⟨.empty, []⟩ Nat.one_pos id
  have admits := reopens.admits
  generalize p.site.arrive SymbolTable.rootId ⟨.empty, []⟩ = place at *
  obtain ⟨scope, b⟩ := place
  cases scope with
  | none =>
    refine ⟨(related _ _ (keeps_forgotten _ _) reopens.behind b b arrived).eq, fun isOpen => ?_⟩
    rw [isOpen] at isSome
    cases isSome
  | some scope =>
    obtain ⟨id, forgotten, own⟩ :=
      reopened_definitions reopens isSome.symm arrived (inside scope rfl) (admits scope b rfl)
    simp only [enterAt]
    have again := related _ _ (keeps_forgotten _ _) reopens.behind _ _ forgotten
    refine ⟨again.eq, fun isOpen => ?_⟩
    have behind := (namedBy_append.mp (reopens.own isOpen)).2
    have name := related _ _ (keeps_forgotten _ _) behind _ _ own
    exact again.found.trans name.found.symm

end Idl
