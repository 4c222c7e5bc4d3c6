import Idl.Binding.Type
import Idl.Proofs.Const.Stored

/-!
Steps of binding that may be taken twice. A step echoes if it does to its own result what it did
before: it gives the same result, reports the same errors and leaves tables alike. Typedefs may mean
something else in the second table until the step has come by them.
-/

set_option autoImplicit false

namespace Idl.Binding

/-- The tables say the same but for the typedefs that are not settled, and of these they have the
outlines. -/
structure Alike (unsettled : List SymbolId) (t u : SymbolTable) : Prop where
  outline : SameOutline t u
  constants : ∀ id, (u.symbol id).constant = (t.symbol id).constant
  aliases : ∀ id, id ∉ unsettled → (u.symbol id).aliased = (t.symbol id).aliased

/-- Taken from `x`, and then from its result over a table that is alike, the step `f` gives one
result, for which `R` holds, and one list of errors. It settles the typedefs that it visits. -/
def Echo (t : SymbolTable) (visits : List SymbolId) {α : Type} (f : α → BindM α) (x : α)
    (R : α → Prop) : Prop :=
  ∀ b, SameFrame t b.table → ∃ y es u, (f x).run b = (y, ⟨u, b.errors ++ es⟩) ∧ R y ∧
    SameFrame t u ∧ ∀ b' rest, Alike (visits ++ rest) b.table b'.table →
      ∃ u', (f y).run b' = (y, ⟨u', b'.errors ++ es⟩) ∧ Alike rest u u'

namespace Alike

variable {t u : SymbolTable} {unsettled more : List SymbolId}

theorem same (alike : Alike unsettled t u) : SameConstants t u :=
  ⟨alike.outline.frame, alike.constants⟩

theorem mono (alike : Alike unsettled t u) (sub : unsettled ⊆ more) : Alike more t u :=
  ⟨alike.outline, alike.constants, fun id other => alike.aliases id fun mem => other (sub mem)⟩

theorem setConstant (alike : Alike unsettled t u) (id : SymbolId) (slot : ConstSlot) :
    Alike unsettled (t.setConstant id slot) (u.setConstant id slot) := by
  have size := alike.outline.frame.size
  have aliased (v : SymbolTable) (i : SymbolId) :
      ((v.setConstant id slot).symbol i).aliased = (v.symbol i).aliased :=
    v.modify_aspect Symbol.aliased id i _ fun _ => rfl
  refine ⟨⟨⟨fun i => ?_, ?_, alike.outline.frame.defining, alike.outline.frame.redeclarations⟩,
    fun i => ?_⟩, fun i => ?_, fun i other => ?_⟩
  · rw [(SameFrame.setConstant u id slot).symbols, (SameFrame.setConstant t id slot).symbols,
      alike.outline.frame.symbols]
  · rw [(SameFrame.setConstant u id slot).size, (SameFrame.setConstant t id slot).size, size]
  · rw [aliased, aliased]
    exact alike.outline.aliases i
  · simp only [SymbolTable.setConstant, SymbolTable.symbol_modify, size]
    split
    · rfl
    · exact alike.constants i
  · rw [aliased, aliased]
    exact alike.aliases i other

theorem aliased_setAlias (v : SymbolTable) (id : SymbolId) (a : Alias) (i : SymbolId) :
    ((v.setAlias id a).symbol i).aliased =
      if i = id ∧ id < v.size then some a else (v.symbol i).aliased := by
  simp only [SymbolTable.setAlias, SymbolTable.symbol_modify]
  split <;> rfl

/-- A typedef that is not settled may name types of one outline. -/
theorem setOutline {id : SymbolId} (alike : Alike unsettled t u) (mem : id ∈ unsettled)
    {a a' : Alias} (outline : a'.outline = a.outline) :
    Alike unsettled (t.setAlias id a) (u.setAlias id a') := by
  have size := alike.outline.frame.size
  have constant (v : SymbolTable) (a : Alias) (i : SymbolId) :
      ((v.setAlias id a).symbol i).constant = (v.symbol i).constant :=
    v.modify_aspect Symbol.constant id i _ fun _ => rfl
  refine ⟨⟨⟨fun i => ?_, ?_, alike.outline.frame.defining, alike.outline.frame.redeclarations⟩,
    fun i => ?_⟩, fun i => ?_, fun i other => ?_⟩
  · rw [(SameFrame.setAlias u id a').symbols, (SameFrame.setAlias t id a).symbols,
      alike.outline.frame.symbols]
  · rw [(SameFrame.setAlias u id a').size, (SameFrame.setAlias t id a).size, size]
  · rw [aliased_setAlias, aliased_setAlias, size]
    split
    · exact congrArg some outline
    · exact alike.outline.aliases i
  · rw [constant, constant]
    exact alike.constants i
  · have ne : i ≠ id := fun eq => other (eq ▸ mem)
    rw [aliased_setAlias, aliased_setAlias, if_neg fun h => ne h.1, if_neg fun h => ne h.1]
    exact alike.aliases i other

/-- A typedef is settled once both tables let it name one type. -/
theorem setAlias {id : SymbolId} (alike : Alike (id :: unsettled) t u) (a : Alias) :
    Alike unsettled (t.setAlias id a) (u.setAlias id a) := by
  have kept := alike.setOutline List.mem_cons_self (rfl : a.outline = a.outline)
  refine ⟨kept.outline, kept.constants, fun i other => ?_⟩
  by_cases here : i = id
  · subst here
    rw [aliased_setAlias, aliased_setAlias, alike.outline.frame.size]
    split
    · rfl
    · next unused =>
      -- the number is not in use
      have large : t.size ≤ i := Nat.le_of_not_lt fun small => unused ⟨rfl, small⟩
      rw [t.symbol_of_size_le large, u.symbol_of_size_le (alike.outline.frame.size ▸ large)]
  · exact kept.aliases i fun mem => (List.mem_cons.mp mem).elim here other

/-- Tables that say the same, with nothing left to settle, are the same. -/
theorem eq (alike : Alike [] t u) : u = t := by
  have symbol (i : SymbolId) : u.symbol i = t.symbol i := by
    have frame := alike.outline.frame.symbols i
    have constant := alike.constants i
    have aliased := alike.aliases i List.not_mem_nil
    rw [Symbol.frame, Symbol.frame] at frame
    cases mine : u.symbol i
    cases other : t.symbol i
    simp_all
  have symbols : u.symbols = t.symbols := by
    refine Array.ext alike.outline.frame.size fun i used used' => ?_
    have same := symbol i
    rw [SymbolTable.symbol, SymbolTable.symbol, Array.getElem?_eq_getElem used,
      Array.getElem?_eq_getElem used'] at same
    exact same
  have defining := alike.outline.frame.defining
  have redeclarations := alike.outline.frame.redeclarations
  cases t
  cases u
  simp_all

end Alike

/-- A step goes on from where the one before it ended. -/
theorem run_bind {α β : Type} {p : BindM α} {k : α → BindM β} {a : α} {b b' : Binding}
    (run : p.run b = (a, b')) : (p >>= k).run b = (k a).run b' := by
  have bound : (p >>= k).run b = (k (p.run b).1).run (p.run b).2 := rfl
  rw [bound, run]

namespace Echo

variable {t : SymbolTable} {visits more : List SymbolId} {α β γ : Type}
  {f : α → BindM α} {R : α → Prop} {Q : γ → Prop} {F : γ → BindM γ}

theorem weaken {x : α} {R' : α → Prop} (echo : Echo t visits f x R) (imp : ∀ y, R y → R' y) :
    Echo t visits f x R' := by
  intro b same
  obtain ⟨y, es, u, run, holds, rest⟩ := echo b same
  exact ⟨y, es, u, run, imp y holds, rest⟩

/-- Fewer typedefs are left open before the step. -/
theorem visit {x : α} (echo : Echo t visits f x R) (sub : more ⊆ visits) : Echo t more f x R := by
  intro b same
  obtain ⟨y, es, u, run, holds, frame, again⟩ := echo b same
  refine ⟨y, es, u, run, holds, frame, fun b' rest alike => again b' rest (alike.mono ?_)⟩
  exact List.append_subset.mpr
    ⟨List.subset_append_of_subset_left _ sub, List.subset_append_right _ _⟩

theorem pure {x : α} (unfold : f x = Pure.pure x) (holds : R x) : Echo t [] f x R := by
  intro b same
  have run (b : Binding) : (f x).run b = (x, ⟨b.table, b.errors ++ []⟩) := by
    rw [unfold, List.append_nil]
    rfl
  exact ⟨x, [], b.table, run b, holds, same, fun b' rest alike => ⟨b'.table, run b', alike⟩⟩

theorem map {a : α} {m : α → γ} (first : Echo t visits f a R)
    (unfold : ∀ a, F (m a) = (do let a ← f a; return m a))
    (holds : ∀ a, R a → Q (m a)) : Echo t visits F (m a) Q := by
  intro b same
  obtain ⟨a', es, u, run, r, frame, again⟩ := first b same
  refine ⟨m a', es, u, ?_, holds a' r, frame, fun b' rest alike => ?_⟩
  · rw [unfold, run_bind run]
    rfl
  · obtain ⟨u', run', alike'⟩ := again b' rest alike
    refine ⟨u', ?_, alike'⟩
    rw [unfold, run_bind run']
    rfl

/-- The second step may read what the first one gave. -/
theorem pair {a : α} {b : β} {g : α → β → BindM β} {m : α → β → γ} {S : α → β → Prop}
    (first : Echo t visits f a R) (second : ∀ a, R a → Echo t more (g a) b (S a))
    (unfold : ∀ a b, F (m a b) = (do let a ← f a; let b ← g a b; return m a b))
    (holds : ∀ a b, R a → S a b → Q (m a b)) : Echo t (visits ++ more) F (m a b) Q := by
  intro s same
  obtain ⟨a', es, u, run, r, frame, again⟩ := first s same
  obtain ⟨b', es', v, run', s', frame', again'⟩ := second a' r ⟨u, s.errors ++ es⟩ frame
  refine ⟨m a' b', es ++ es', v, ?_, holds a' b' r s', frame', fun c rest alike => ?_⟩
  · rw [unfold, run_bind run, run_bind run', ← List.append_assoc]
    rfl
  · rw [List.append_assoc] at alike
    obtain ⟨u', echoed, alike⟩ := again c (more ++ rest) alike
    obtain ⟨v', echoed', alike⟩ := again' ⟨u', c.errors ++ es⟩ rest alike
    refine ⟨v', ?_, alike⟩
    rw [unfold, run_bind echoed, run_bind echoed', ← List.append_assoc]
    rfl

/-- Two steps as one, with both results. -/
theorem both {a : α} {b : β} {g : α → β → BindM β} {S : α → β → Prop}
    (first : Echo t visits f a R) (second : ∀ a, R a → Echo t more (g a) b (S a)) :
    Echo t (visits ++ more) (fun x : α × β => do
      let a ← f x.1
      let b ← g a x.2
      return (a, b)) (a, b) fun y => R y.1 ∧ S y.1 y.2 :=
  first.pair second (m := Prod.mk) (fun _ _ => rfl) fun _ _ r s => ⟨r, s⟩

theorem option {x : Option α} (each : ∀ a ∈ x, Echo t [] f a R) :
    Echo t [] (Option.mapM f) x fun _ => True := by
  cases x with
  | none => exact pure rfl trivial
  | some a => exact (each a rfl).map (fun _ => rfl) fun _ _ => trivial

theorem list {V : α → List SymbolId} {R : α → α → Prop} (xs : List α)
    (each : ∀ x ∈ xs, Echo t (V x) f x (R x)) :
    Echo t (xs.flatMap V) (List.mapM f) xs (List.Forall₂ R xs) := by
  induction xs with
  | nil => exact pure List.mapM_nil .nil
  | cons x xs ih =>
    rw [List.flatMap_cons]
    exact (each x (by simp)).pair (fun _ _ => ih fun y mem => each y (by simp [mem]))
      (fun _ _ => List.mapM_cons) fun _ _ first rest => .cons first rest

/-- A step that does what another does over all tables with the names of `t`. -/
theorem inFrame {x : γ} {G : γ → BindM γ} (inner : Echo t visits G x Q)
    (run : ∀ x b, SameFrame t b.table → (F x).run b = (G x).run b) : Echo t visits F x Q := by
  intro b same
  obtain ⟨y, es, u, eq, holds, frame, again⟩ := inner b same
  refine ⟨y, es, u, (run x b same).trans eq, holds, frame, fun b' rest alike => ?_⟩
  rw [run y b' (same.trans alike.outline.frame)]
  exact again b' rest alike

/-- A step within the scope that an identifier opens. -/
theorem inScope {x : γ} {G : SymbolId → γ → BindM γ} (name : Ident) (outer : SymbolId)
    (inner : Echo t visits (G ((t.definedAt? name.span).getD outer)) x Q)
    (unfold : ∀ x, F x = (do let id ← scopeOf name outer; G id x)) : Echo t visits F x Q :=
  inner.inFrame fun x b same => by
    rw [unfold, ← same.definedAt?]
    rfl

/-- A step that reads the table, no further than outlines go. -/
theorem read {δ : Type} {x : γ} {G : δ → γ → BindM γ} {q : SymbolTable → δ}
    (stable : ∀ u v, SameOutline u v → q v = q u) (inner : ∀ d, Echo t visits (G d) x Q)
    (unfold : ∀ x, F x = (do let d ← table? q; G d x)) : Echo t visits F x Q := by
  have run (x : γ) (b : Binding) : (F x).run b = (G (q b.table) x).run b := by
    rw [unfold]
    rfl
  intro b same
  obtain ⟨y, es, u, eq, holds, frame, again⟩ := inner (q b.table) b same
  refine ⟨y, es, u, (run x b).trans eq, holds, frame, fun b' rest alike => ?_⟩
  rw [run y b', stable b.table b'.table alike.outline]
  exact again b' rest alike

/-- A step that only reads names and constants, and gives back what it is given again. -/
theorem outcome {x : α} (o : SymbolTable → α → α × List BindingError)
    (run : ∀ x b, (f x).run b = ((o b.table x).1, ⟨b.table, b.errors ++ (o b.table x).2⟩))
    (congr : ∀ u v x, SameConstants u v → o v x = o u x)
    (again : ∀ u, o u (o u x).1 = o u x) (holds : ∀ u, R (o u x).1) : Echo t [] f x R := by
  intro b same
  refine ⟨_, _, b.table, run x b, holds b.table, same, fun b' rest alike => ⟨b'.table, ?_, alike⟩⟩
  rw [run, congr _ _ _ alike.same, again]

end Echo

end Idl.Binding
