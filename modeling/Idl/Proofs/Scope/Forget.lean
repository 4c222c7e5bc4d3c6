import Idl.Proofs.Const.Stored
import Idl.Proofs.Scope.Together

/-!
A symbol table that forgets a place: no identifier there defines a symbol any more. Whatever is
looked up at other places alone is the same without it. Main statements: `constType?_forget` and
`keeps_forgotten`.
-/

set_option autoImplicit false

namespace Idl

/-- The identifier stands elsewhere. -/
def Ident.Avoids (place : Nat) (name : Ident) : Prop := name.span.offset ≠ place

namespace SymbolTable

/-- Nothing is defined at the place. -/
def forget (place : Nat) (t : SymbolTable) : SymbolTable :=
  { t with defining := t.defining.filter (·.1 ≠ place) }

theorem lookup_filter_ne {place offset : Nat} (other : offset ≠ place)
    (defining : List (Nat × SymbolId)) :
    (defining.filter (·.1 ≠ place)).lookup offset = defining.lookup offset := by
  induction defining with
  | nil => rfl
  | cons entry rest ih =>
    obtain ⟨key, id⟩ := entry
    by_cases here : key = place
    · subst here
      have unequal : (offset == key) = false := beq_eq_false_iff_ne.mpr other
      rw [List.filter_cons_of_neg (by simp), List.lookup_cons, unequal]
      exact ih
    · rw [List.filter_cons_of_pos (by simpa using here), List.lookup_cons, List.lookup_cons, ih]

variable {place : Nat} (t : SymbolTable)

theorem definedAt?_forget {span : Span} (other : span.offset ≠ place) :
    (t.forget place).definedAt? span = t.definedAt? span :=
  lookup_filter_ne other t.defining

theorem sameSymbols_forget : SameSymbols t (t.forget place) := fun _ => rfl

theorem addDetached_forget (scope : SymbolId) {name : Ident} (kind : SymbolKind)
    (other : name.Avoids place) : (t.forget place).addDetached scope name kind =
      ((t.addDetached scope name kind).1, (t.addDetached scope name kind).2.forget place) := by
  simp only [addDetached, forget, size, List.filter_cons, Ident.Avoids] at *
  simp [other]

theorem bindSpan_forget {span : Span} (id : SymbolId) (other : span.offset ≠ place) :
    (t.forget place).bindSpan span id = (t.bindSpan span id).forget place := by
  simp [bindSpan, forget, other]

/-- What is at the place is forgotten. -/
theorem forget_bindSpan (span : Span) (id : SymbolId) :
    (t.bindSpan span id).forget span.offset = t.forget span.offset := by
  simp [bindSpan, forget]

/-! Types of constants. A type defined in place is looked up by its name. -/

end SymbolTable

/-- No type in it is defined at the place. -/
def TypeSpec.Avoids (place : Nat) (τ : TypeSpec) : Prop :=
  NamedBy (Ident.Avoids place) τ.declarations

namespace SymbolTable

/-- No type behind a typedef has a definition at the place. -/
def AliasesAvoid (place : Nat) (t : SymbolTable) : Prop :=
  ∀ id a, (t.symbol id).aliased = some a → a.type.Avoids place

variable {place : Nat} {t : SymbolTable}

theorem constTypeWithin?_forget (aliases : t.AliasesAvoid place) (fuel : Nat) {τ : TypeSpec}
    (avoids : τ.Avoids place) :
    (t.forget place).constTypeWithin? fuel τ = t.constTypeWithin? fuel τ := by
  induction fuel generalizing τ with
  | zero => rfl
  | succ fuel ih =>
    have behind (id : SymbolId) :
        (t.forget place).aliasTypeWithin? fuel id = t.aliasTypeWithin? fuel id := by
      have symbol : (t.forget place).symbol id = t.symbol id := rfl
      rw [aliasTypeWithin?, aliasTypeWithin?, symbol]
      split
      · next a found => rw [ih (aliases id a found)]
      · rfl
    rw [constTypeWithin?_succ, constTypeWithin?_succ]
    cases τ with
    | enum e =>
      have name : e.name.Avoids place := avoids ⟨e.name, .defined .enum⟩ (List.mem_cons_self)
      simp only [TypeSpec.head, headType?, t.definedAt?_forget name]
    | named type =>
      simp only [TypeSpec.head]
      cases type.target with
      | none => rfl
      | some id =>
        have kind : (t.forget place).kind id = t.kind id := rfl
        simp only [headType?, kind, behind]
    | _ => rfl

theorem constType?_forget (aliases : t.AliasesAvoid place) {τ : TypeSpec}
    (avoids : τ.Avoids place) : (t.forget place).constType? τ = t.constType? τ :=
  constTypeWithin?_forget aliases maxAliasDepth avoids

theorem discriminantType?_forget (aliases : t.AliasesAvoid place) {τ : TypeSpec}
    (avoids : τ.Avoids place) : (t.forget place).discriminantType? τ = t.discriminantType? τ :=
  congrArg (Option.filter _) (constType?_forget aliases avoids)

end SymbolTable

/-! Programs that read a table. -/

section

variable {σ α β : Type} {place : Nat} {t : SymbolTable}

/-- A program that reads a table does the same if the table forgets the place. -/
def Overlooks (place : Nat) (t : SymbolTable) (p : ReaderT SymbolTable (StateM σ) α) : Prop :=
  p.run (t.forget place) = p.run t

namespace Overlooks

variable {p : ReaderT SymbolTable (StateM σ) α}

theorem pure (a : α) : Overlooks place t (Pure.pure a : ReaderT SymbolTable (StateM σ) α) := rfl

theorem bind {k : α → ReaderT SymbolTable (StateM σ) β} (first : Overlooks place t p)
    (second : ∀ a, Overlooks place t (k a)) : Overlooks place t (p >>= k) := by
  rw [Overlooks, ReaderT.run_bind, ReaderT.run_bind, first]
  exact bind_congr second

theorem map (f : α → β) (overlooks : Overlooks place t p) : Overlooks place t (f <$> p) := by
  rw [Overlooks, ReaderT.run_map, ReaderT.run_map, overlooks]

theorem discard (overlooks : Overlooks place t p) : Overlooks place t (Functor.discard p) :=
  overlooks.map fun _ => PUnit.unit

theorem forM {f : α → ReaderT SymbolTable (StateM σ) PUnit} {xs : List α}
    (each : ∀ x ∈ xs, Overlooks place t (f x)) : Overlooks place t (xs.forM f) := by
  induction xs with
  | nil => exact pure _
  | cons x xs ih =>
    rw [List.forall_mem_cons] at each
    rw [List.forM]
    exact each.1.bind fun _ => ih each.2

/-- What is read of the table is the same without the place. -/
theorem reading {k : SymbolTable → ReaderT SymbolTable (StateM σ) α}
    (same : (k (t.forget place)).run (t.forget place) = (k t).run t) :
    Overlooks place t (read >>= k) := same

end Overlooks

end

/-! Builders. -/

namespace ScopeBuilder

/-- Nothing is defined at the place. -/
def forget (place : Nat) (b : ScopeBuilder) : ScopeBuilder := b.modify (·.forget place)

/-- A symbol that was entered, in a builder that forgets the place. -/
abbrev forgetting (place : Nat) (x : SymbolId × ScopeBuilder) : SymbolId × ScopeBuilder :=
  (x.1, x.2.forget place)

variable {place : Nat} {scope : SymbolId} {name : Ident} (b : ScopeBuilder)

theorem member?_forget (scope : SymbolId) (name : String) :
    (b.forget place).table.member? scope name = b.table.member? scope name := rfl

theorem kind_forget (id : SymbolId) : (b.forget place).table.kind id = b.table.kind id := rfl

theorem setConstant_forget (id : SymbolId) (slot : ConstSlot) :
    (b.forget place).modify (·.setConstant id slot) =
      (b.modify (·.setConstant id slot)).forget place := rfl

theorem addDetached_forget (scope : SymbolId) (kind : SymbolKind) (avoids : name.Avoids place) :
    (b.forget place).addDetached scope name kind =
      forgetting place (b.addDetached scope name kind) := by
  have table := b.table.addDetached_forget scope kind avoids
  simp only [addDetached, forgetting, forget, modify, table]

theorem add_forget (scope : SymbolId) (kind : SymbolKind) (avoids : name.Avoids place) :
    (b.forget place).add scope name kind = forgetting place (b.add scope name kind) := by
  have table := b.table.addDetached_forget scope kind avoids
  simp only [add, SymbolTable.add, forgetting, forget, modify, table]
  rfl

theorem addDuplicate_forget (scope : SymbolId) (kind : SymbolKind) (previous : SymbolId)
    (avoids : name.Avoids place) : (b.forget place).addDuplicate scope name kind previous =
      forgetting place (b.addDuplicate scope name kind previous) :=
  addDetached_forget (b.modify (·.redeclare scope name previous)) scope kind avoids

theorem declare_forget (scope : SymbolId) (kind : SymbolKind) (avoids : name.Avoids place) :
    (b.forget place).declare scope name kind = forgetting place (b.declare scope name kind) := by
  rw [declare, declare, member?_forget]
  split
  · exact b.add_forget scope kind avoids
  · exact b.addDuplicate_forget scope kind _ avoids

theorem openModule_forget (avoids : name.Avoids place) :
    (b.forget place).openModule scope name = forgetting place (b.openModule scope name) := by
  rw [openModule, openModule, member?_forget]
  split
  · exact b.add_forget scope .module avoids
  · rw [kind_forget]
    split
    · next existing _ _ =>
      have table := b.table.bindSpan_forget existing avoids
      simp only [forgetting, forget, modify, table]
    · exact b.addDuplicate_forget scope .module _ avoids

theorem complete_forget (kind : ForwardKind) (avoids : name.Avoids place) :
    (b.forget place).complete scope name kind = forgetting place (b.complete scope name kind) := by
  simp only [complete, member?_forget]
  split
  · exact b.add_forget scope _ avoids
  · next existing _ =>
    have symbol : (b.forget place).table.symbol existing = b.table.symbol existing := rfl
    rw [symbol]
    split
    · exact b.addDuplicate_forget scope _ _ avoids
    · split
      · have entered := b.addDetached_forget scope (.ofForward kind) avoids
        simp only [entered]
        rfl
      · have table := (b.table.modify existing fun s =>
          { s with isForward := false, span := name.span }).bindSpan_forget existing avoids
        simp only [forgetting, forget, modify, ← table]
        rfl

theorem announce_forget {d : ForwardDecl} (avoids : d.name.Avoids place) :
    (b.forget place).announce scope d = (b.announce scope d).forget place := by
  simp only [announce, member?_forget]
  split
  · have entered := b.add_forget scope (.ofForward d.kind) avoids
    simp only [entered]
    rfl
  · next existing _ =>
    rw [kind_forget]
    split
    · have table := b.table.bindSpan_forget existing avoids
      simp only [forget, modify, table]
    · rfl

theorem enumerator_forget (enum : SymbolId) (ordinal : Nat) (avoids : name.Avoids place) :
    (b.forget place).enumerator scope enum name ordinal =
      (b.enumerator scope enum name ordinal).forget place := by
  simp only [enumerator, member?_forget]
  split
  · next previous _ =>
    have entered := b.addDuplicate_forget enum (.enumerator enum ordinal) previous avoids
    simp only [entered]
    rfl
  · have entered := b.add_forget enum (.enumerator enum ordinal) avoids
    rw [entered]
    dsimp only [forgetting]
    rw [setConstant_forget, member?_forget]
    split <;> rfl

/-- The second builder has forgotten the place, where the symbol is defined in the first, if any. -/
structure Forgotten (place : Nat) (id : Option SymbolId) (b c : ScopeBuilder) : Prop where
  eq : c = b.forget place
  found : b.table.defining.lookup place = id

/-- What stands elsewhere is entered the same, and defines nothing at the place. -/
theorem keeps_forgotten (place : Nat) (id : Option SymbolId) :
    Keeps (Ident.Avoids place) (Forgotten place id) := by
  have elsewhere {t u : SymbolTable} {name : Ident} {role : Role} {i : SymbolId}
      (step : Step t u ⟨name, role⟩ i) (avoids : name.Avoids place)
      (found : t.defining.lookup place = id) : u.defining.lookup place = id :=
    (step.elsewhere place (Ne.symm avoids)).trans found
  constructor
  case declare =>
    rintro b _ scope name kind ⟨rfl, found⟩ avoids -
    rw [Together, declare_forget b scope kind avoids]
    exact ⟨rfl, rfl, elsewhere (step_declare b scope name kind) avoids found⟩
  case const =>
    rintro b _ scope name ⟨rfl, found⟩ avoids
    have entered := declare_forget b scope .const avoids
    have still := elsewhere (step_declare b scope name .const) avoids found
    refine ⟨?_, still⟩
    rw [enterConst, entered]
    rfl
  case openModule =>
    rintro b _ scope name ⟨rfl, found⟩ avoids
    rw [Together, openModule_forget b avoids]
    exact ⟨rfl, rfl, elsewhere (step_openModule b scope name) avoids found⟩
  case complete =>
    rintro b _ scope name kind ⟨rfl, found⟩ avoids
    rw [Together, complete_forget b kind avoids]
    exact ⟨rfl, rfl, elsewhere (step_complete b scope name kind) avoids found⟩
  case announce =>
    rintro b _ scope d ⟨rfl, found⟩ avoids
    obtain ⟨i, step⟩ := step_announce b scope d
    exact ⟨announce_forget b avoids, elsewhere step avoids found⟩
  case enumerator =>
    rintro b _ scope enum name ordinal ⟨rfl, found⟩ avoids
    refine ⟨enumerator_forget b enum ordinal avoids, ?_⟩
    have fits : Role.module.Fits (.enumerator enum ordinal) := Role.module_fits rfl
    simp only [enumerator]
    split
    · next previous _ =>
      have step := step_addDuplicate b enum name (.enumerator enum ordinal) previous fits
      have still := elsewhere step avoids found
      exact still
    · have step := step_add b.table enum name (.enumerator enum ordinal) fits
        fun _ role => by cases role
      have still := elsewhere step avoids found
      split <;> exact still

end ScopeBuilder

end Idl
