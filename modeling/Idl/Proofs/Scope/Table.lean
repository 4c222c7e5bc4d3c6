import Idl.Scope.Table
import Mathlib.Data.List.Basic

/-!
What each operation on a symbol table does to its two views: symbols by their numbers, and
symbols by the places of identifiers. A number that is not in use stands for the global scope, so
a symbol that is entered only changes what its own number stands for.
-/

set_option autoImplicit false

namespace Idl.SymbolTable

variable (t : SymbolTable)

theorem symbol_of_size_le {id : SymbolId} (large : t.size ≤ id) : t.symbol id = Symbol.root := by
  have none : t.symbols[id]? = none := Array.getElem?_eq_none large
  simp [symbol, none]

theorem kind_of_size_le {id : SymbolId} (large : t.size ≤ id) : t.kind id = .root := by
  rw [kind, t.symbol_of_size_le large]
  rfl

theorem lt_size_of_kind_ne_root {id : SymbolId} (kind : t.kind id ≠ .root) : id < t.size := by
  by_contra large
  exact kind (t.kind_of_size_le (Nat.le_of_not_lt large))

theorem lt_size_of_isForward {id : SymbolId} (forward : (t.symbol id).isForward = true) :
    id < t.size := by
  by_contra large
  rw [t.symbol_of_size_le (Nat.le_of_not_lt large)] at forward
  cases forward

/-! Changes of one symbol. -/

theorem symbol_modify (id i : SymbolId) (f : Symbol → Symbol) :
    (t.modify id f).symbol i = if i = id ∧ id < t.size then f (t.symbol i) else t.symbol i := by
  by_cases inside : i < t.size
  · have getElem : t.symbols[i]? = some t.symbols[i] := Array.getElem?_eq_getElem inside
    simp only [symbol, modify, Array.getElem?_modify, getElem]
    by_cases same : i = id
    · subst same
      simp [inside]
    · simp [same, Ne.symm same]
  · have outside : t.symbols[i]? = none := Array.getElem?_eq_none (by simpa [size] using inside)
    have unused : ¬ (i = id ∧ id < t.size) := fun ⟨same, used⟩ => inside (same ▸ used)
    simp only [symbol, modify, Array.getElem?_modify, outside, if_neg unused]
    split <;> rfl

@[simp] theorem size_modify (id : SymbolId) (f : Symbol → Symbol) :
    (t.modify id f).size = t.size := by
  simp [modify, size]

@[simp] theorem defining_modify (id : SymbolId) (f : Symbol → Symbol) :
    (t.modify id f).defining = t.defining := rfl

@[simp] theorem redeclarations_modify (id : SymbolId) (f : Symbol → Symbol) :
    (t.modify id f).redeclarations = t.redeclarations := rfl

/-- A change that leaves an aspect of each symbol alone leaves it alone in the table. -/
theorem modify_aspect {α : Type} (aspect : Symbol → α) (id i : SymbolId) (f : Symbol → Symbol)
    (keeps : ∀ s, aspect (f s) = aspect s) :
    aspect ((t.modify id f).symbol i) = aspect (t.symbol i) := by
  rw [symbol_modify]
  split
  · exact keeps _
  · rfl

/-! A symbol entered without a name in its scope. -/

theorem symbol_addDetached (parent i : SymbolId) (name : Ident) (kind : SymbolKind) :
    (t.addDetached parent name kind).2.symbol i =
      if i = t.size then Symbol.fresh name.name kind (some parent) name.span else t.symbol i := by
  simp only [symbol, addDetached, Array.getElem?_push, size]
  split <;> simp_all

@[simp] theorem id_addDetached (parent : SymbolId) (name : Ident) (kind : SymbolKind) :
    (t.addDetached parent name kind).1 = t.size := rfl

@[simp] theorem size_addDetached (parent : SymbolId) (name : Ident) (kind : SymbolKind) :
    (t.addDetached parent name kind).2.size = t.size + 1 := by
  simp [addDetached, size]

@[simp] theorem redeclarations_addDetached (parent : SymbolId) (name : Ident)
    (kind : SymbolKind) :
    (t.addDetached parent name kind).2.redeclarations = t.redeclarations := rfl

theorem defining_addDetached (parent : SymbolId) (name : Ident) (kind : SymbolKind) :
    (t.addDetached parent name kind).2.defining = (name.span.offset, t.size) :: t.defining := rfl

/-- An aspect that a fresh symbol has as the global scope has it does not change anywhere. -/
theorem addDetached_aspect {α : Type} (aspect : Symbol → α) (parent i : SymbolId) (name : Ident)
    (kind : SymbolKind)
    (plain : aspect (Symbol.fresh name.name kind (some parent) name.span) = aspect Symbol.root) :
    aspect ((t.addDetached parent name kind).2.symbol i) = aspect (t.symbol i) := by
  rw [symbol_addDetached]
  split
  · next same => rw [plain, t.symbol_of_size_le (Nat.le_of_eq same.symm)]
  · rfl

/-! Names in a scope. -/

@[simp] theorem member?_addDetached (parent : SymbolId) (name : Ident) (kind : SymbolKind)
    (i : SymbolId) (other : String) :
    (t.addDetached parent name kind).2.member? i other = t.member? i other :=
  congrArg (List.lookup other) (t.addDetached_aspect Symbol.members parent i name kind rfl)

theorem member?_addMember (scope id : SymbolId) (name : String) (i : SymbolId) (other : String)
    (inside : scope < t.size) :
    (t.addMember scope name id).member? i other =
      if i = scope ∧ other = name ∧ t.member? i other = none then some id
      else t.member? i other := by
  simp only [member?, addMember, symbol_modify]
  by_cases same : i = scope
  · subst same
    simp only [inside, and_self, ↓reduceIte, List.lookup_append, true_and]
    cases found : List.lookup other (t.symbol i).members with
    | some old => simp
    | none =>
      by_cases equal : other = name
      · simp [equal]
      · simp [equal]
  · simp [same]

/-- No name of a scope is forgotten. -/
theorem member?_addMember_isSome (scope id : SymbolId) (name : String) (i : SymbolId)
    (other : String) (known : (t.member? i other).isSome) :
    ((t.addMember scope name id).member? i other).isSome := by
  by_cases inside : scope < t.size
  · rw [t.member?_addMember scope id name i other inside]
    split <;> simp_all
  · simp only [member?, addMember, symbol_modify, inside, and_false, ↓reduceIte]
    exact known

theorem definedAt?_eq (span : Span) : t.definedAt? span = t.defining.lookup span.offset := rfl

/-! Symbols that await their definitions. -/

theorem nodup_danglingForwards : (t.danglingForwards.map (·.1)).Nodup := by
  have numbers : (t.toList.map (·.1)).Nodup := by
    rw [toList, List.map_map]
    exact (List.zipIdx_map_snd 0 t.symbols.toList).symm ▸ List.nodup_range'
  exact numbers.sublist (List.filter_sublist.map _)

/-- The numbers among the forward declarations are those of awaited symbols. -/
theorem mem_danglingForwards (id : SymbolId) :
    (∃ f ∈ t.danglingForwards, f.1 = id) ↔ (t.symbol id).isForward = true := by
  simp only [danglingForwards, toList, List.mem_filter, List.mem_map]
  constructor
  · rintro ⟨f, ⟨⟨⟨s, i⟩, mem, rfl⟩, forward⟩, rfl⟩
    have found : t.symbols[i]? = some s := by
      simpa using List.mem_zipIdx_iff_getElem?.mp mem
    rw [symbol, found]
    exact forward
  · intro forward
    have inside := t.lt_size_of_isForward forward
    have found : t.symbols[id]? = some (t.symbol id) := by
      rw [symbol, Array.getElem?_eq_getElem inside]
      rfl
    refine ⟨(id, t.symbol id), ⟨⟨(t.symbol id, id), ?_, rfl⟩, forward⟩, rfl⟩
    exact List.mem_zipIdx_iff_getElem?.mpr (by simpa using found)

end Idl.SymbolTable
