import Idl.Proofs.Scope.Visits
import Idl.Proofs.Spans.Placed

/-!
What the symbols of a unit with good places point at: names declared twice, definitions other than
announced, and forward declarations stand at good places. Main statement: `marked_buildScopes`.
-/

set_option autoImplicit false

namespace Idl

/-- Announced symbols stand at good places. -/
def SymbolTable.Awaits (P : Span → Prop) (t : SymbolTable) : Prop :=
  ∀ i, (t.symbol i).isForward = true → P (t.symbol i).span

/-- What is reported of a table under construction stands at good places. -/
structure ScopeBuilder.Marked (P : Span → Prop) (b : ScopeBuilder) : Prop where
  awaits : b.table.Awaits P
  redeclarations : ∀ r ∈ b.table.redeclarations, P r.span
  mismatches : ∀ m ∈ b.mismatches, P m.name.span

variable {P : Span → Prop}

namespace SymbolTable.Awaits

variable {t : SymbolTable}

theorem modify (awaits : t.Awaits P) (id : SymbolId) {f : Symbol → Symbol}
    (keeps : ∀ s, (f s).isForward = true → s.isForward = true ∧ (f s).span = s.span) :
    (t.modify id f).Awaits P := by
  intro i
  rw [symbol_modify]
  split
  · intro forward
    obtain ⟨forward, span⟩ := keeps _ forward
    rw [span]
    exact awaits i forward
  · exact awaits i

theorem addDetached (awaits : t.Awaits P) (scope : SymbolId) (name : Ident) (kind : SymbolKind) :
    (t.addDetached scope name kind).2.Awaits P := by
  intro i
  rw [symbol_addDetached]
  split
  · exact nofun
  · exact awaits i

theorem addMember (awaits : t.Awaits P) (scope : SymbolId) (name : String) (id : SymbolId) :
    (t.addMember scope name id).Awaits P :=
  awaits.modify scope fun _ forward => ⟨forward, rfl⟩

theorem setConstant (awaits : t.Awaits P) (id : SymbolId) (slot : ConstSlot) :
    (t.setConstant id slot).Awaits P :=
  awaits.modify id fun _ forward => ⟨forward, rfl⟩

/-- A symbol that is entered stands at its name, and may then be announced. -/
theorem announce (awaits : t.Awaits P) (scope : SymbolId) {name : Ident} (placed : name.Placed P)
    (kind : SymbolKind) : ((t.add scope name kind).2.modify (t.add scope name kind).1
      fun s => { s with isForward := true }).Awaits P := by
  have span : ((t.add scope name kind).2.symbol t.size).span = name.span :=
    (modify_aspect _ Symbol.span scope _
        (fun s => { s with members := s.members ++ [(name.name, t.size)] }) fun _ => rfl).trans
      (congrArg Symbol.span ((t.symbol_addDetached scope t.size name kind).trans (if_pos rfl)))
  have entered : (t.add scope name kind).2.Awaits P :=
    (awaits.addDetached scope name kind).addMember scope name.name _
  intro i
  rw [symbol_modify]
  split
  · next here =>
    intro _
    rw [here.1]
    exact Eq.mpr (congrArg P span) placed
  · exact entered i

end SymbolTable.Awaits

namespace ScopeBuilder.Marked

variable {b : ScopeBuilder} {scope : SymbolId} {name : Ident}

theorem addDetached (marked : b.Marked P) (kind : SymbolKind) :
    (b.addDetached scope name kind).2.Marked P :=
  ⟨marked.awaits.addDetached scope name kind, marked.redeclarations, marked.mismatches⟩

theorem add (marked : b.Marked P) (kind : SymbolKind) : (b.add scope name kind).2.Marked P :=
  ⟨(marked.awaits.addDetached scope name kind).addMember scope name.name _, marked.redeclarations,
    marked.mismatches⟩

theorem redeclare (marked : b.Marked P) (placed : name.Placed P) (previous : SymbolId) :
    (b.modify (·.redeclare scope name previous)).Marked P :=
  ⟨marked.awaits, List.forall_mem_append.mpr ⟨marked.redeclarations, fun _ mem =>
    List.mem_singleton.mp mem ▸ placed⟩, marked.mismatches⟩

theorem addDuplicate (marked : b.Marked P) (placed : name.Placed P) (kind : SymbolKind)
    (previous : SymbolId) : (b.addDuplicate scope name kind previous).2.Marked P :=
  (marked.redeclare placed previous).addDetached kind

theorem setConstant (marked : b.Marked P) (id : SymbolId) (slot : ConstSlot) :
    (b.modify (·.setConstant id slot)).Marked P :=
  ⟨marked.awaits.setConstant id slot, marked.redeclarations, marked.mismatches⟩

theorem declare (marked : b.Marked P) (placed : name.Placed P) (kind : SymbolKind) :
    (b.declare scope name kind).2.Marked P := by
  rw [ScopeBuilder.declare]
  split
  · exact marked.add kind
  · exact marked.addDuplicate placed kind _

theorem openModule (marked : b.Marked P) (placed : name.Placed P) :
    (b.openModule scope name).2.Marked P := by
  rw [ScopeBuilder.openModule]
  split
  · exact marked.add .module
  · split
    · exact ⟨marked.awaits, marked.redeclarations, marked.mismatches⟩
    · exact marked.addDuplicate placed .module _

theorem complete (marked : b.Marked P) (placed : name.Placed P) (kind : ForwardKind) :
    (b.complete scope name kind).2.Marked P := by
  simp only [ScopeBuilder.complete]
  split
  · exact marked.add _
  · next existing _ =>
    split
    · exact marked.addDuplicate placed _ _
    · split
      · have entered : (b.addDetached scope name (.ofForward kind)).2.Marked P :=
          marked.addDetached _
        exact ⟨entered.awaits, entered.redeclarations, List.forall_mem_append.mpr
          ⟨entered.mismatches, fun _ mem => List.mem_singleton.mp mem ▸ placed⟩⟩
      · have defined : (b.table.modify existing fun s =>
            { s with isForward := false, span := name.span }).Awaits P :=
          marked.awaits.modify existing fun _ forward => absurd forward Bool.false_ne_true
        exact ⟨defined, marked.redeclarations, marked.mismatches⟩

theorem announce (marked : b.Marked P) {d : ForwardDecl} (placed : d.name.Placed P) :
    (b.announce scope d).Marked P := by
  simp only [ScopeBuilder.announce]
  split
  · exact ⟨marked.awaits.announce scope placed _, marked.redeclarations, marked.mismatches⟩
  · split
    · exact ⟨marked.awaits, marked.redeclarations, marked.mismatches⟩
    · exact marked.redeclare placed _

theorem enumerator (marked : b.Marked P) (placed : name.Placed P) (enum : SymbolId)
    (ordinal : Nat) : (ScopeBuilder.enumerator scope enum b name ordinal).Marked P := by
  simp only [ScopeBuilder.enumerator]
  split
  · exact (marked.addDuplicate placed _ _).setConstant _ _
  · have added : (b.add enum name (.enumerator enum ordinal)).2.Marked P := marked.add _
    have entered := added.setConstant (b.add enum name (.enumerator enum ordinal)).1
      (.value ⟨.enum enum, .enumerator enum ordinal name.name⟩)
    split
    · exact entered.redeclare placed _
    · exact ⟨entered.awaits.addMember scope name.name _, entered.redeclarations,
        entered.mismatches⟩

end ScopeBuilder.Marked

theorem Move.marked {b b' : ScopeBuilder} (move : Move (Ident.Placed P) b b')
    (marked : b.Marked P) : b'.Marked P := by
  cases move with
  | declare kind _ named _ => exact marked.declare named kind
  | openModule _ named => exact marked.openModule named
  | complete kind _ named => exact marked.complete named kind
  | announce _ named => exact marked.announce named
  | enumerator ordinal _ _ _ _ named => exact marked.enumerator named _ ordinal
  | setConstant id slot => exact marked.setConstant id slot

theorem Moves.marked {b b' : ScopeBuilder} (moves : Moves (Ident.Placed P) b b')
    (marked : b.Marked P) : b'.Marked P := by
  induction moves with
  | refl => exact marked
  | tail _ move ih => exact move.marked ih

theorem marked_buildScopes {s : Specification} (placed : allPlaced P s.definitions) :
    (buildScopes s).Marked P := by
  have start : ScopeBuilder.Marked P ⟨.empty, []⟩ := by
    refine ⟨fun i forward => ?_, nofun, nofun⟩
    have inside := SymbolTable.lt_size_of_isForward _ forward
    obtain rfl : i = 0 := Nat.lt_one_iff.mp inside
    cases forward
  exact (moves_buildScopes s (namedBy_allDeclarations s.definitions placed)).marked start

end Idl
