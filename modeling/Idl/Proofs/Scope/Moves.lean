import Idl.Proofs.Scope.Steps
import Mathlib.Logic.Relation

/-!
Moves of the builder, each of them one operation within a scope that is in use. A move leaves every
symbol in its place and forgets no name. Main statement: `Moves.widens`.
-/

set_option autoImplicit false

namespace Idl

/-- Where a symbol stands, and as what. -/
def Symbol.place (s : Symbol) : String × SymbolKind × Option SymbolId := (s.name, s.kind, s.parent)

/-- All of `t` is still there in `u`: each symbol in its place, and each name in its scope. -/
structure Widens (t u : SymbolTable) : Prop where
  size : t.size ≤ u.size
  places : ∀ i < t.size, (u.symbol i).place = (t.symbol i).place
  members : ∀ i name id, t.member? i name = some id → u.member? i name = some id

namespace Widens

variable {t u v : SymbolTable}

theorem refl (t : SymbolTable) : Widens t t :=
  ⟨Nat.le_refl _, fun _ _ => rfl, fun _ _ _ known => known⟩

theorem trans (first : Widens t u) (second : Widens u v) : Widens t v where
  size := Nat.le_trans first.size second.size
  places i inside := (second.places i (Nat.lt_of_lt_of_le inside first.size)).trans
    (first.places i inside)
  members i name id known := second.members i name id (first.members i name id known)

theorem lt_size (widens : Widens t u) {i : SymbolId} (inside : i < t.size) : i < u.size :=
  Nat.lt_of_lt_of_le inside widens.size

theorem kind (widens : Widens t u) {i : SymbolId} (inside : i < t.size) : u.kind i = t.kind i :=
  congrArg (fun place => place.2.1) (widens.places i inside)

theorem name (widens : Widens t u) {i : SymbolId} (inside : i < t.size) :
    (u.symbol i).name = (t.symbol i).name :=
  congrArg (fun place => place.1) (widens.places i inside)

theorem parent (widens : Widens t u) {i : SymbolId} (inside : i < t.size) :
    (u.symbol i).parent = (t.symbol i).parent :=
  congrArg (fun place => place.2.2) (widens.places i inside)

/-- A change of what is no place and no name. -/
theorem modify (t : SymbolTable) (id : SymbolId) (f : Symbol → Symbol)
    (place : ∀ s, (f s).place = s.place) (members : ∀ s, (f s).members = s.members) :
    Widens t (t.modify id f) where
  size := Nat.le_of_eq (t.size_modify id f).symm
  places i _ := t.modify_aspect Symbol.place id i f place
  members i name _ known :=
    (congrArg (List.lookup name) (t.modify_aspect Symbol.members id i f members)).trans known

theorem bindSpan (t : SymbolTable) (span : Span) (id : SymbolId) : Widens t (t.bindSpan span id) :=
  ⟨Nat.le_refl _, fun _ _ => rfl, fun _ _ _ known => known⟩

theorem redeclare (t : SymbolTable) (scope : SymbolId) (name : Ident) (previous : SymbolId) :
    Widens t (t.redeclare scope name previous) :=
  ⟨Nat.le_refl _, fun _ _ => rfl, fun _ _ _ known => known⟩

theorem addDetached (t : SymbolTable) (scope : SymbolId) (name : Ident) (kind : SymbolKind) :
    Widens t (t.addDetached scope name kind).2 where
  size := by simp
  places i inside := by rw [t.symbol_addDetached, if_neg (Nat.ne_of_lt inside)]
  members i other _ known := (t.member?_addDetached scope name kind i other).trans known

theorem addMember (t : SymbolTable) {scope : SymbolId} (name : String) (id : SymbolId)
    (inside : scope < t.size) : Widens t (t.addMember scope name id) where
  size := Nat.le_of_eq (t.size_modify _ _).symm
  places i _ := t.modify_aspect Symbol.place scope i _ fun _ => rfl
  members i other old known := by
    rw [t.member?_addMember scope id name i other inside, if_neg, known]
    rintro ⟨-, -, free⟩
    rw [known] at free
    cases free

theorem add (t : SymbolTable) {scope : SymbolId} (name : Ident) (kind : SymbolKind)
    (inside : scope < t.size) : Widens t (t.add scope name kind).2 :=
  (addDetached t scope name kind).trans
    (addMember _ name.name t.size ((addDetached t scope name kind).lt_size inside))

end Widens

/-! What is entered under a free name. -/

namespace SymbolTable

theorem place_add (t : SymbolTable) (scope : SymbolId) (name : Ident) (kind : SymbolKind) :
    ((t.add scope name kind).2.symbol t.size).place = (name.name, kind, some scope) :=
  (modify_aspect _ Symbol.place scope _ (fun s =>
    { s with members := s.members ++ [(name.name, t.size)] }) fun _ => rfl).trans
    (congrArg Symbol.place ((t.symbol_addDetached scope t.size name kind).trans (if_pos rfl)))

theorem kind_add (t : SymbolTable) (scope : SymbolId) (name : Ident) (kind : SymbolKind) :
    (t.add scope name kind).2.kind t.size = kind :=
  congrArg (fun place => place.2.1) (t.place_add scope name kind)

theorem member?_add {t : SymbolTable} {scope : SymbolId} {name : Ident} (kind : SymbolKind)
    (inside : scope < t.size) (free : t.member? scope name.name = none) :
    (t.add scope name kind).2.member? scope name.name = some t.size :=
  (member?_addMember _ scope t.size name.name scope name.name
    ((Widens.addDetached t scope name kind).lt_size inside)).trans
    (if_pos ⟨rfl, rfl, (t.member?_addDetached scope name kind scope name.name).trans free⟩)

end SymbolTable

/-- A symbol of the kind may be entered in the scope. Enumerators have a move of their own. -/
def SymbolKind.FitsIn (scope : SymbolId) : SymbolKind → Prop
  | .root => False
  | .enumerator _ _ => False
  | .bitValue owner _ => owner = scope
  | _ => True

theorem SymbolKind.FitsIn.ne_root {scope : SymbolId} {kind : SymbolKind}
    (fits : kind.FitsIn scope) : kind ≠ .root := by
  rintro rfl
  exact fits

/-- No name was found to be taken, and no definition to be other than announced. -/
structure ScopeBuilder.Quiet (b : ScopeBuilder) : Prop where
  redeclarations : b.table.redeclarations = []
  mismatches : b.mismatches = []

/-- One operation of the builder, with a name that satisfies `P`. -/
inductive Move (P : Ident → Prop) (b : ScopeBuilder) : ScopeBuilder → Prop
  | declare {scope : SymbolId} {name : Ident} (kind : SymbolKind) (inside : scope < b.table.size)
      (named : P name) (fits : kind.FitsIn scope) : Move P b (b.declare scope name kind).2
  | openModule {scope : SymbolId} {name : Ident} (inside : scope < b.table.size)
      (named : P name) : Move P b (b.openModule scope name).2
  | complete {scope : SymbolId} {name : Ident} (kind : ForwardKind)
      (inside : scope < b.table.size) (named : P name) : Move P b (b.complete scope name kind).2
  | announce {scope : SymbolId} {d : ForwardDecl} (inside : scope < b.table.size)
      (named : P d.name) : Move P b (b.announce scope d)
  | enumerator {scope enum : SymbolId} {name : Ident} (ordinal : Nat)
      (inside : scope < b.table.size) (used : enum < b.table.size)
      (kind : b.table.kind enum = .enum) (parent : (b.table.symbol enum).parent = some scope)
      (named : P name) : Move P b (b.enumerator scope enum name ordinal)
  | setConstant (id : SymbolId) (slot : ConstSlot) : Move P b (b.modify (·.setConstant id slot))

/-- Any number of moves. -/
abbrev Moves (P : Ident → Prop) : ScopeBuilder → ScopeBuilder → Prop :=
  Relation.ReflTransGen (Move P)

namespace ScopeBuilder

variable {b : ScopeBuilder} {scope : SymbolId} {name : Ident}

/-! What one operation keeps. -/

theorem widens_addDuplicate (kind : SymbolKind) (previous : SymbolId) :
    Widens b.table (b.addDuplicate scope name kind previous).2.table :=
  (Widens.redeclare b.table scope name previous).trans (Widens.addDetached _ scope name kind)

theorem widens_declare (kind : SymbolKind) (inside : scope < b.table.size) :
    Widens b.table (b.declare scope name kind).2.table := by
  rw [declare]
  split
  · exact Widens.add b.table name kind inside
  · exact widens_addDuplicate kind _

theorem widens_openModule (inside : scope < b.table.size) :
    Widens b.table (b.openModule scope name).2.table := by
  rw [openModule]
  split
  · exact Widens.add b.table name .module inside
  · split
    · exact Widens.bindSpan _ _ _
    · exact widens_addDuplicate .module _

theorem widens_complete (kind : ForwardKind) (inside : scope < b.table.size) :
    Widens b.table (b.complete scope name kind).2.table := by
  simp only [complete]
  split
  · exact Widens.add b.table name _ inside
  · split
    · exact widens_addDuplicate _ _
    · split
      · exact Widens.addDetached b.table scope name _
      · exact (Widens.modify b.table _ (fun s => { s with isForward := false, span := name.span })
          (fun _ => rfl) fun _ => rfl).trans (Widens.bindSpan _ _ _)

theorem widens_announce (d : ForwardDecl) (inside : scope < b.table.size) :
    Widens b.table (b.announce scope d).table := by
  simp only [announce]
  split
  · exact (Widens.add b.table d.name _ inside).trans
      (Widens.modify _ _ _ (fun _ => rfl) fun _ => rfl)
  · split
    · exact Widens.bindSpan _ _ _
    · exact Widens.redeclare _ _ _ _

theorem widens_setConstant (t : SymbolTable) (id : SymbolId) (slot : ConstSlot) :
    Widens t (t.setConstant id slot) :=
  Widens.modify t id _ (fun _ => rfl) fun _ => rfl

theorem widens_enumerator {enum : SymbolId} (ordinal : Nat) (inside : scope < b.table.size)
    (used : enum < b.table.size) :
    Widens b.table (enumerator scope enum b name ordinal).table := by
  simp only [enumerator]
  split
  · exact (widens_addDuplicate _ _).trans (widens_setConstant _ _ _)
  · have entered : Widens b.table ((b.add enum name (.enumerator enum ordinal)).2.modify
        (·.setConstant (b.add enum name (.enumerator enum ordinal)).1 (.value
          ⟨.enum enum, .enumerator enum ordinal name.name⟩))).table :=
      (Widens.add b.table name _ used).trans (widens_setConstant _ _ _)
    split
    · exact entered.trans (Widens.redeclare _ _ _ _)
    · exact entered.trans (Widens.addMember _ _ _ (entered.lt_size inside))

end ScopeBuilder

section

variable {P : Ident → Prop} {b b' : ScopeBuilder}

theorem Move.widens (move : Move P b b') : Widens b.table b'.table := by
  cases move with
  | declare kind inside _ _ => exact ScopeBuilder.widens_declare kind inside
  | openModule inside _ => exact ScopeBuilder.widens_openModule inside
  | complete kind inside _ => exact ScopeBuilder.widens_complete kind inside
  | announce inside _ => exact ScopeBuilder.widens_announce _ inside
  | enumerator ordinal inside used _ _ _ =>
    exact ScopeBuilder.widens_enumerator ordinal inside used
  | setConstant id slot => exact ScopeBuilder.widens_setConstant _ id slot

theorem Moves.widens (moves : Moves P b b') : Widens b.table b'.table := by
  induction moves with
  | refl => exact Widens.refl _
  | tail _ move ih => exact ih.trans move.widens

end

/-! Names of declarations. -/

/-- All the declarations have names that satisfy `P`. -/
def NamedBy (P : Ident → Prop) (ds : List Declaration) : Prop := ∀ d ∈ ds, P d.name

theorem namedBy_cons {P : Ident → Prop} {d : Declaration} {ds : List Declaration} :
    NamedBy P (d :: ds) ↔ P d.name ∧ NamedBy P ds := List.forall_mem_cons

theorem namedBy_listing {P : Ident → Prop} {owner : Ident} {kind : SymbolKind}
    {values : List Enumerator} :
    NamedBy P (listing owner kind values) ↔ P owner ∧ ∀ v ∈ values, P v.name := by
  simp [NamedBy, listing]

theorem namedBy_append {P : Ident → Prop} {ds es : List Declaration} :
    NamedBy P (ds ++ es) ↔ NamedBy P ds ∧ NamedBy P es := List.forall_mem_append

namespace ScopeBuilder

variable {P : Ident → Prop} {b : ScopeBuilder} {scope : SymbolId} {name : Ident}

/-- Enters a constant, which has not been reached. -/
def enterConst (b : ScopeBuilder) (scope : SymbolId) (name : Ident) : ScopeBuilder :=
  (b.declare scope name .const).2.modify (·.setConstant (b.declare scope name .const).1 .pending)

/-! The scope that an operation gives is in use. -/

theorem lt_size_declare (kind : SymbolKind) :
    (b.declare scope name kind).1 < (b.declare scope name kind).2.table.size :=
  ((step_declare b scope name kind).defines kind rfl).used

theorem lt_size_complete (kind : ForwardKind) :
    (b.complete scope name kind).1 < (b.complete scope name kind).2.table.size :=
  ((step_complete b scope name kind).defines _ rfl).used

theorem lt_size_openModule :
    (b.openModule scope name).1 < (b.openModule scope name).2.table.size := by
  rw [openModule]
  split
  · simp only [add, SymbolTable.add, SymbolTable.addMember, SymbolTable.size_modify,
      SymbolTable.size_addDetached, SymbolTable.id_addDetached]
    exact Nat.lt_succ_self _
  · split
    · next module => exact b.table.lt_size_of_kind_ne_root (by rw [module]; decide)
    · exact Nat.lt_of_lt_of_eq (Nat.lt_succ_self _) (SymbolTable.size_addDetached _ _ _ _).symm

theorem place_declare (b : ScopeBuilder) (scope : SymbolId) (name : Ident) (kind : SymbolKind) :
    ((b.declare scope name kind).2.table.symbol (b.declare scope name kind).1).place =
      (name.name, kind, some scope) := by
  rw [declare]
  split
  · exact b.table.place_add scope name kind
  · exact congrArg Symbol.place ((SymbolTable.symbol_addDetached _ _ _ _ _).trans (if_pos rfl))

end ScopeBuilder

end Idl
