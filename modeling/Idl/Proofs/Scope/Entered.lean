import Idl.Proofs.Scope.Declaration
import Idl.Proofs.Scope.Table
import Idl.Scope.Build

/-!
What the symbol table of a unit says of its declarations. Each definition has a symbol of its own
kind, no two definitions share one, and every type is defined somewhere or still awaited. One
declaration is a step from table to table; `Step.entered` says what any such step preserves.
-/

set_option autoImplicit false

namespace Idl

/-- The identifier defines a symbol of the kind, and the symbol awaits no further definition. -/
structure Defines (t : SymbolTable) (name : Ident) (kind : SymbolKind) (id : SymbolId) : Prop where
  place : t.definedAt? name.span = some id
  kind_eq : t.kind id = kind
  complete : (t.symbol id).isForward = false
  used : id < t.size

/-- The symbol was announced and not defined. -/
structure Awaited (t : SymbolTable) (id : SymbolId) : Prop where
  forward : (t.symbol id).isForward = true
  announced : ∃ kind, t.kind id = .ofForward kind

/-- The table after the declarations `ds`. -/
structure Entered (t : SymbolTable) (ds : List Declaration) : Prop where
  /-- Only declarations have symbols. -/
  places : ∀ offset id, t.defining.lookup offset = some id →
    offset ∈ ds.map (·.name.span.offset)
  defined : ∀ name kind, ⟨name, .defined kind⟩ ∈ ds → ∃ id, Defines t name kind id
  modules : ∀ name, ⟨name, .module⟩ ∈ ds → ∃ id, t.definedAt? name.span = some id
  distinct : ∀ name kind other otherKind id, ⟨name, .defined kind⟩ ∈ ds →
    ⟨other, .defined otherKind⟩ ∈ ds → t.definedAt? name.span = some id →
    t.definedAt? other.span = some id → name = other
  sources : ∀ id, (t.kind id).isType = true → Awaited t id ∨
    ∃ name, ⟨name, .defined (t.kind id)⟩ ∈ ds ∧ t.definedAt? name.span = some id
  /-- Names in one list are members of their owner, unless some name is declared twice. -/
  listed : ∀ name owner, ⟨name, .listed owner⟩ ∈ ds → t.redeclarations = [] →
    ∃ id, t.definedAt? owner.span = some id ∧ (t.member? id name.name).isSome = true
  unlike : t.redeclarations = [] → ∀ name other owner, ⟨name, .listed owner⟩ ∈ ds →
    ⟨other, .listed owner⟩ ∈ ds → name.name = other.name → name = other
  unfailed : ∀ id, (t.symbol id).constant ≠ .failed

theorem entered_empty : Entered .empty [] := by
  have root (id : SymbolId) : SymbolTable.empty.symbol id = Symbol.root := by
    rcases id with _ | id
    · rfl
    · exact SymbolTable.symbol_of_size_le _ (by simp [SymbolTable.empty, SymbolTable.size])
  constructor
  case sources =>
    intro id type
    rw [SymbolTable.kind, root] at type
    cases type
  case unfailed => intro id failed; rw [root] at failed; cases failed
  all_goals simp [SymbolTable.empty]

/-- Nothing happens but that members and redeclarations are added. -/
structure Calm (t t' : SymbolTable) : Prop where
  size : t'.size = t.size
  kinds : ∀ i, t'.kind i = t.kind i
  forwards : ∀ i, (t'.symbol i).isForward = (t.symbol i).isForward
  defining : t'.defining = t.defining
  known : ∀ i name, (t.member? i name).isSome = true → (t'.member? i name).isSome = true
  quiet : t'.redeclarations = [] → t.redeclarations = []
  constants : ∀ i, (t'.symbol i).constant = (t.symbol i).constant

/-- One declaration enters a table, with the symbol `id`: a new one, one that was announced, or
one that is only made known again. -/
structure Step (t t' : SymbolTable) (d : Declaration) (id : SymbolId) : Prop where
  size : t.size ≤ t'.size
  kinds : ∀ i, i ≠ id → t'.kind i = t.kind i
  forwards : ∀ i, i ≠ id → (t'.symbol i).isForward = (t.symbol i).isForward
  reused : t.size ≤ id ∨
    (t.symbol id).isForward = true ∧ d.role = .defined (t.kind id) ∨
    (∀ kind, d.role ≠ .defined kind) ∧ t'.kind id = t.kind id ∧
      (t'.symbol id).isForward = (t.symbol id).isForward
  defines : ∀ kind, d.role = .defined kind → Defines t' d.name kind id
  opens : d.role = .module → t'.definedAt? d.name.span = some id
  untyped : (∀ kind, d.role ≠ .defined kind) → t.size ≤ id → (t'.kind id).isType = true →
    Awaited t' id
  elsewhere : ∀ offset, offset ≠ d.name.span.offset →
    t'.defining.lookup offset = t.defining.lookup offset
  known : ∀ i name, (t.member? i name).isSome = true → (t'.member? i name).isSome = true
  quiet : t'.redeclarations = [] → t.redeclarations = []
  lists : ∀ owner, d.role = .listed owner → t'.redeclarations = [] →
    ∃ i, t.definedAt? owner.span = some i ∧ t.member? i d.name.name = none ∧
      (t'.member? i d.name.name).isSome = true
  unfailed : ∀ i, (t'.symbol i).constant = .failed → (t.symbol i).constant = .failed

namespace Step

variable {t t' : SymbolTable} {d : Declaration} {id : SymbolId}

theorem keeps_awaited (step : Step t t' d id) {i : SymbolId} (other : i ≠ id)
    (awaited : Awaited t i) : Awaited t' i where
  forward := (step.forwards i other).trans awaited.forward
  announced := by
    rw [step.kinds i other]
    exact awaited.announced

/-- A symbol that a definition has taken is not taken again. -/
theorem keeps_symbol (step : Step t t' d id) {i : SymbolId} (used : i < t.size)
    (complete : (t.symbol i).isForward = false) :
    t'.kind i = t.kind i ∧ (t'.symbol i).isForward = false := by
  by_cases same : i = id
  · subst same
    rcases step.reused with large | ⟨forward, -⟩ | ⟨-, kind, forward⟩
    · exact absurd used (Nat.not_lt.mpr large)
    · rw [complete] at forward
      cases forward
    · exact ⟨kind, forward.trans complete⟩
  · exact ⟨step.kinds i same, (step.forwards i same).trans complete⟩

theorem keeps_defines (step : Step t t' d id) {name : Ident} {kind : SymbolKind} {i : SymbolId}
    (defines : Defines t name kind i) (apart : name.span.offset ≠ d.name.span.offset) :
    Defines t' name kind i := by
  have same := step.keeps_symbol defines.used defines.complete
  exact ⟨(step.elsewhere _ apart).trans defines.place, same.1.trans defines.kind_eq, same.2,
    Nat.lt_of_lt_of_le defines.used step.size⟩

/-- What any declaration at a new place preserves. -/
theorem entered (step : Step t t' d id) {ds : List Declaration} (before : Entered t ds)
    (apart : d.name.span.offset ∉ ds.map (·.name.span.offset)) : Entered t' (ds ++ [d]) := by
  have apart_of_mem {name : Ident} {role : Role} (mem : ⟨name, role⟩ ∈ ds) :
      name.span.offset ≠ d.name.span.offset :=
    fun same => apart (same ▸ List.mem_map_of_mem (f := (·.name.span.offset)) mem)
  have place_of_mem {name : Ident} {role : Role} (mem : ⟨name, role⟩ ∈ ds) :
      t'.definedAt? name.span = t.definedAt? name.span := step.elsewhere _ (apart_of_mem mem)
  have split {name : Ident} {role : Role} (mem : ⟨name, role⟩ ∈ ds ++ [d]) :
      ⟨name, role⟩ ∈ ds ∨ d = ⟨name, role⟩ := by
    simpa [eq_comm] using mem
  -- the symbol of an earlier definition is not the one of this declaration
  have other {name : Ident} {kind : SymbolKind} {i : SymbolId} (mem : ⟨name, .defined kind⟩ ∈ ds)
      (place : t.definedAt? name.span = some i) (same : i = id)
      {now : SymbolKind} (role : d.role = .defined now) : False := by
    subst same
    obtain ⟨j, defines⟩ := before.defined name kind mem
    have eq : j = i := Option.some_inj.mp (defines.place.symm.trans place)
    subst eq
    rcases step.reused with large | ⟨forward, -⟩ | ⟨none, -⟩
    · exact absurd defines.used (Nat.not_lt.mpr large)
    · rw [defines.complete] at forward
      cases forward
    · exact none now role
  constructor
  case places =>
    intro offset i found
    by_cases same : offset = d.name.span.offset
    · simp [same]
    · rw [step.elsewhere offset same] at found
      simp [before.places offset i found]
  case defined =>
    intro name kind mem
    rcases split mem with mem | rfl
    · obtain ⟨i, defines⟩ := before.defined name kind mem
      exact ⟨i, step.keeps_defines defines (apart_of_mem mem)⟩
    · exact ⟨id, step.defines kind rfl⟩
  case modules =>
    intro name mem
    rcases split mem with mem | rfl
    · obtain ⟨i, place⟩ := before.modules name mem
      exact ⟨i, (place_of_mem mem).trans place⟩
    · exact ⟨id, step.opens rfl⟩
  case distinct =>
    intro first kind second otherKind i mem otherMem place otherPlace
    rcases split mem with old | rfl <;> rcases split otherMem with otherOld | new
    · rw [place_of_mem old] at place
      rw [place_of_mem otherOld] at otherPlace
      exact before.distinct first kind second otherKind i old otherOld place otherPlace
    · subst new
      rw [(step.defines otherKind rfl).place, Option.some_inj] at otherPlace
      rw [place_of_mem old] at place
      exact (other old place otherPlace.symm rfl).elim
    · rw [(step.defines kind rfl).place, Option.some_inj] at place
      rw [place_of_mem otherOld] at otherPlace
      exact (other otherOld otherPlace place.symm rfl).elim
    · simp_all
  case sources =>
    intro i type
    by_cases same : i = id
    · subst same
      by_cases typed : ∃ kind, d.role = .defined kind
      · obtain ⟨kind, role⟩ := typed
        have defines := step.defines kind role
        refine .inr ⟨d.name, ?_, defines.place⟩
        rw [defines.kind_eq, ← role]
        exact List.mem_append_right _ (by simp)
      · have untyped : ∀ kind, d.role ≠ .defined kind := fun kind role => typed ⟨kind, role⟩
        rcases step.reused with large | ⟨-, role⟩ | ⟨-, kind, forward⟩
        · exact .inl (step.untyped untyped large type)
        · exact absurd role (untyped _)
        · rw [kind] at type ⊢
          rcases before.sources i type with awaited | ⟨name, mem, place⟩
          · exact .inl ⟨forward.trans awaited.forward, by rw [kind]; exact awaited.announced⟩
          · exact .inr ⟨name, List.mem_append_left _ mem, (place_of_mem mem).trans place⟩
    · rw [step.kinds i same] at type ⊢
      rcases before.sources i type with awaited | ⟨name, mem, place⟩
      · exact .inl (step.keeps_awaited same awaited)
      · exact .inr ⟨name, List.mem_append_left _ mem, (place_of_mem mem).trans place⟩
  case listed =>
    intro name owner mem quiet
    rcases split mem with mem | rfl
    · obtain ⟨i, place, known⟩ := before.listed name owner mem (step.quiet quiet)
      have old := before.places _ _ place
      have ne : owner.span.offset ≠ d.name.span.offset := fun same => apart (same ▸ old)
      exact ⟨i, (step.elsewhere _ ne).trans place, step.known i _ known⟩
    · obtain ⟨i, place, -, known⟩ := step.lists owner rfl quiet
      have old := before.places _ _ place
      have ne : owner.span.offset ≠ name.span.offset := fun same => apart (same ▸ old)
      exact ⟨i, (step.elsewhere _ ne).trans place, known⟩
  case unlike =>
    intro quiet first second owner mem otherMem same
    -- a name that is listed already is known in its owner, so it is not entered again
    have fresh {name : Ident} (mem : ⟨name, .listed owner⟩ ∈ ds)
        (role : d.role = .listed owner) (same : name.name = d.name.name) : False := by
      obtain ⟨i, place, free, -⟩ := step.lists owner role quiet
      obtain ⟨j, otherPlace, known⟩ := before.listed name owner mem (step.quiet quiet)
      have eq : j = i := Option.some_inj.mp (otherPlace.symm.trans place)
      subst eq
      rw [same, free] at known
      cases known
    rcases split mem with old | rfl <;> rcases split otherMem with otherOld | new
    · exact before.unlike (step.quiet quiet) first second owner old otherOld same
    · subst new
      exact (fresh old rfl same).elim
    · exact (fresh otherOld rfl same.symm).elim
    · simp_all
  case unfailed => exact fun i failed => before.unfailed i (step.unfailed i failed)

end Step

end Idl
