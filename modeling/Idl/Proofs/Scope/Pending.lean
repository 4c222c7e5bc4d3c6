import Idl.Proofs.Scope.Together
import Idl.Proofs.Scope.Visits

/-!
Constants and typedefs in the symbol table of a unit: no constant has been reached, and no typedef
has its type. Main statements: `waiting_buildScopes` and `unaliased_buildScopes`.
-/

set_option autoImplicit false

namespace Idl

namespace SymbolTable

/-- No constant has been reached, but for what is at `exempt`. -/
def WaitingBut (exempt : Option SymbolId) (t : SymbolTable) : Prop :=
  ∀ i, exempt ≠ some i → t.kind i = .const → (t.symbol i).constant = .pending

/-- No constant has been reached. -/
abbrev Waiting (t : SymbolTable) : Prop := t.WaitingBut none

namespace WaitingBut

variable {t : SymbolTable} {exempt : Option SymbolId}

theorem modify (waiting : t.WaitingBut exempt) (id : SymbolId) {f : Symbol → Symbol}
    (kind : ∀ s, (f s).kind = s.kind) (constant : ∀ s, (f s).constant = s.constant) :
    (t.modify id f).WaitingBut exempt := by
  intro i other const
  rw [t.modify_aspect Symbol.constant id i f constant]
  exact waiting i other ((t.modify_aspect Symbol.kind id i f kind).symm.trans const)

theorem addMember (waiting : t.WaitingBut exempt) (scope : SymbolId) (name : String)
    (id : SymbolId) : (t.addMember scope name id).WaitingBut exempt :=
  waiting.modify scope (fun _ => rfl) fun _ => rfl

/-- Only what is entered may be a constant that is not set yet. -/
theorem addDetached (waiting : t.Waiting) (scope : SymbolId) (name : Ident) {kind : SymbolKind}
    (fits : kind ≠ .const ∨ exempt = some t.size) :
    (t.addDetached scope name kind).2.WaitingBut exempt := by
  intro i other const
  rw [SymbolTable.kind, symbol_addDetached] at const
  rw [symbol_addDetached]
  by_cases new : i = t.size
  · rw [if_pos new] at const
    rcases fits with unlike | here
    · exact absurd const unlike
    · exact absurd (new ▸ here) other
  · rw [if_neg new] at const ⊢
    exact waiting i (by simp) const

theorem setConstant (waiting : t.WaitingBut exempt) {id : SymbolId} {slot : ConstSlot}
    (fits : t.kind id = .const → slot = .pending) (here : exempt = none ∨ exempt = some id) :
    (t.setConstant id slot).Waiting := by
  intro i _ const
  have same : (t.setConstant id slot).kind i = t.kind i :=
    t.modify_aspect Symbol.kind id i (fun s => { s with constant := slot }) fun _ => rfl
  rw [same] at const
  have inside := t.lt_size_of_kind_ne_root (by rw [const]; decide)
  rw [SymbolTable.setConstant, symbol_modify]
  by_cases set : i = id
  · subst set
    rw [if_pos ⟨rfl, inside⟩]
    exact fits const
  · rw [if_neg fun h => set h.1]
    refine waiting i (fun other => ?_) const
    subst other
    rcases here with none | same
    · cases none
    · exact set (Option.some_inj.mp same)

end WaitingBut

/-- No typedef has its type. -/
def Unaliased (t : SymbolTable) : Prop := ∀ i, (t.symbol i).aliased = none

namespace Unaliased

variable {t : SymbolTable}

theorem modify (unaliased : t.Unaliased) (id : SymbolId) {f : Symbol → Symbol}
    (aliased : ∀ s, (f s).aliased = s.aliased) : (t.modify id f).Unaliased := fun i =>
  (t.modify_aspect Symbol.aliased id i f aliased).trans (unaliased i)

theorem addDetached (unaliased : t.Unaliased) (scope : SymbolId) (name : Ident)
    (kind : SymbolKind) : (t.addDetached scope name kind).2.Unaliased := by
  intro i
  rw [symbol_addDetached]
  split
  · rfl
  · exact unaliased i

theorem add (unaliased : t.Unaliased) (scope : SymbolId) (name : Ident) (kind : SymbolKind) :
    (t.add scope name kind).2.Unaliased :=
  (unaliased.addDetached scope name kind).modify scope fun _ => rfl

end Unaliased

end SymbolTable

namespace ScopeBuilder

variable {b : ScopeBuilder} {scope : SymbolId} {name : Ident} {exempt : Option SymbolId}

theorem waiting_add {kind : SymbolKind} (waiting : b.table.Waiting)
    (fits : kind ≠ .const ∨ exempt = some b.table.size) :
    (b.add scope name kind).2.table.WaitingBut exempt :=
  (SymbolTable.WaitingBut.addDetached waiting scope name fits).addMember scope name.name _

theorem waiting_addDuplicate {kind : SymbolKind} (waiting : b.table.Waiting)
    (previous : SymbolId) (fits : kind ≠ .const ∨ exempt = some b.table.size) :
    (b.addDuplicate scope name kind previous).2.table.WaitingBut exempt :=
  SymbolTable.WaitingBut.addDetached (t := b.table.redeclare scope name previous) waiting scope name
    fits

theorem waiting_declare {kind : SymbolKind} (waiting : b.table.Waiting)
    (fits : kind ≠ .const ∨ exempt = some b.table.size) :
    (b.declare scope name kind).2.table.WaitingBut exempt := by
  rw [declare]
  split
  · exact waiting_add waiting fits
  · exact waiting_addDuplicate waiting _ fits

theorem waiting_enterConst (waiting : b.table.Waiting) :
    (b.enterConst scope name).table.Waiting := by
  have id : (b.declare scope name .const).1 = b.table.size := by
    rw [declare]
    split <;> rfl
  rw [enterConst, id]
  exact (waiting_declare waiting (.inr rfl)).setConstant (fun _ => rfl) (.inr rfl)

theorem waiting_openModule (waiting : b.table.Waiting) :
    (b.openModule scope name).2.table.Waiting := by
  rw [openModule]
  split
  · exact waiting_add waiting (.inl (by decide))
  · split
    · exact waiting
    · exact waiting_addDuplicate waiting _ (.inl (by decide))

theorem ofForward_ne_const (kind : ForwardKind) : SymbolKind.ofForward kind ≠ .const := by
  cases kind <;> decide

theorem waiting_complete (waiting : b.table.Waiting) (kind : ForwardKind) :
    (b.complete scope name kind).2.table.Waiting := by
  have fits {exempt : Option SymbolId} :
      SymbolKind.ofForward kind ≠ .const ∨ exempt = some b.table.size :=
    .inl (ofForward_ne_const kind)
  simp only [complete]
  split
  · exact waiting_add waiting fits
  · split
    · exact waiting_addDuplicate waiting _ fits
    · split
      · exact SymbolTable.WaitingBut.addDetached waiting scope name fits
      · exact waiting.modify _ (fun _ => rfl) fun _ => rfl

theorem waiting_announce (waiting : b.table.Waiting) (d : ForwardDecl) :
    (b.announce scope d).table.Waiting := by
  simp only [announce]
  split
  · exact (waiting_add waiting (.inl (ofForward_ne_const d.kind))).modify _ (fun _ => rfl)
      fun _ => rfl
  · split <;> exact waiting

theorem kind_addDetached (b : ScopeBuilder) (scope : SymbolId) (name : Ident) (kind : SymbolKind) :
    (b.addDetached scope name kind).2.table.kind b.table.size = kind :=
  congrArg Symbol.kind ((b.table.symbol_addDetached scope _ name kind).trans (if_pos rfl))

theorem waiting_enumerator (waiting : b.table.Waiting) (enum : SymbolId) (ordinal : Nat) :
    (b.enumerator scope enum name ordinal).table.Waiting := by
  have unlike : SymbolKind.enumerator enum ordinal ≠ .const := by simp
  simp only [enumerator]
  split
  · next previous _ =>
    have kind := kind_addDetached (b.modify (·.redeclare enum name previous)) enum name
      (.enumerator enum ordinal)
    exact (waiting_addDuplicate waiting previous (.inl unlike)).setConstant
      (fun const => absurd (kind.symm.trans const) unlike) (.inl rfl)
  · have kind := b.table.kind_add enum name (.enumerator enum ordinal)
    have added (slot : ConstSlot) :
        ((b.add enum name (.enumerator enum ordinal)).2.table.setConstant b.table.size
          slot).Waiting :=
      (waiting_add waiting (.inl unlike)).setConstant
        (fun const => absurd (kind.symm.trans const) unlike) (.inl rfl)
    split
    · exact added _
    · exact (added _).addMember scope name.name _

/-- Each operation leaves constants as they are, and enters them as not reached. -/
theorem keeps_waiting : Keeps (fun _ => True) fun b c => b = c ∧ c.table.Waiting where
  declare scope _ _ related _ unlike :=
    ⟨by rw [related.1], by rw [related.1], waiting_declare related.2 (.inl unlike)⟩
  const scope _ related _ := ⟨by rw [related.1], waiting_enterConst related.2⟩
  openModule scope _ related _ :=
    ⟨by rw [related.1], by rw [related.1], waiting_openModule related.2⟩
  complete scope _ kind related _ :=
    ⟨by rw [related.1], by rw [related.1], waiting_complete related.2 kind⟩
  announce scope d related _ := ⟨by rw [related.1], waiting_announce related.2 d⟩
  enumerator scope enum _ ordinal related _ :=
    ⟨by rw [related.1], waiting_enumerator related.2 enum ordinal⟩

/-! Typedefs. -/

section

variable {b : ScopeBuilder} {scope : SymbolId} {name : Ident}

theorem unaliased_addDuplicate (unaliased : b.table.Unaliased) (kind : SymbolKind)
    (previous : SymbolId) : (b.addDuplicate scope name kind previous).2.table.Unaliased :=
  SymbolTable.Unaliased.addDetached (t := b.table.redeclare scope name previous) unaliased scope
    name kind

theorem unaliased_declare (unaliased : b.table.Unaliased) (kind : SymbolKind) :
    (b.declare scope name kind).2.table.Unaliased := by
  rw [declare]
  split
  · exact unaliased.add scope name kind
  · exact unaliased_addDuplicate unaliased kind _

theorem unaliased_openModule (unaliased : b.table.Unaliased) :
    (b.openModule scope name).2.table.Unaliased := by
  rw [openModule]
  split
  · exact unaliased.add scope name .module
  · split
    · exact unaliased
    · exact unaliased_addDuplicate unaliased .module _

theorem unaliased_complete (unaliased : b.table.Unaliased) (kind : ForwardKind) :
    (b.complete scope name kind).2.table.Unaliased := by
  simp only [complete]
  split
  · exact unaliased.add scope name _
  · split
    · exact unaliased_addDuplicate unaliased _ _
    · split
      · exact unaliased.addDetached scope name _
      · exact unaliased.modify _ fun _ => rfl

theorem unaliased_announce (unaliased : b.table.Unaliased) (d : ForwardDecl) :
    (b.announce scope d).table.Unaliased := by
  simp only [announce]
  split
  · exact (unaliased.add scope d.name _).modify _ fun _ => rfl
  · split <;> exact unaliased

theorem unaliased_enumerator (unaliased : b.table.Unaliased) (enum : SymbolId) (ordinal : Nat) :
    (b.enumerator scope enum name ordinal).table.Unaliased := by
  simp only [enumerator]
  split
  · exact (unaliased_addDuplicate unaliased _ _).modify _ fun _ => rfl
  · have entered := unaliased.add enum name (.enumerator enum ordinal)
    have added (slot : ConstSlot) :
        ((b.add enum name (.enumerator enum ordinal)).2.table.setConstant b.table.size
          slot).Unaliased := entered.modify b.table.size fun _ => rfl
    split
    · exact added _
    · exact (added _).modify scope fun _ => rfl

end

end ScopeBuilder

theorem Move.unaliased {P : Ident → Prop} {b b' : ScopeBuilder} (move : Move P b b')
    (before : b.table.Unaliased) : b'.table.Unaliased := by
  cases move with
  | declare kind _ _ _ => exact ScopeBuilder.unaliased_declare before kind
  | openModule _ _ => exact ScopeBuilder.unaliased_openModule before
  | complete kind _ _ => exact ScopeBuilder.unaliased_complete before kind
  | announce _ _ => exact ScopeBuilder.unaliased_announce before _
  | enumerator ordinal _ _ _ _ _ => exact ScopeBuilder.unaliased_enumerator before _ ordinal
  | setConstant id slot => exact before.modify id fun _ => rfl

theorem Moves.unaliased {P : Ident → Prop} {b b' : ScopeBuilder} (moves : Moves P b b')
    (before : b.table.Unaliased) : b'.table.Unaliased := by
  induction moves with
  | refl => exact before
  | tail _ move ih => exact move.unaliased ih

/-- No typedef of a unit has its type before they are bound. -/
theorem unaliased_buildScopes (s : Specification) : (buildScopes s).table.Unaliased := by
  have start : SymbolTable.empty.Unaliased := by
    intro i
    cases i <;> rfl
  exact (moves_buildScopes (P := fun _ => True) s fun _ _ => trivial).unaliased start

/-- No constant of a unit has been reached. -/
theorem waiting_buildScopes (s : Specification) : (buildScopes s).table.Waiting := by
  have start : SymbolTable.empty.Waiting := by
    intro i _ const
    have inside := SymbolTable.lt_size_of_kind_ne_root _ (by rw [const]; decide)
    obtain rfl : i = 0 := Nat.lt_one_iff.mp inside
    cases const
  exact (ScopeBuilder.keeps_waiting.definitions SymbolTable.rootId s.definitions ⟨.empty, []⟩ _
    ⟨rfl, start⟩ fun _ _ => trivial).2

end Idl
