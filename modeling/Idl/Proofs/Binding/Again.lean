import Idl.Analysis
import Idl.Parse
import Idl.Proofs.Binding.EchoUnit
import Idl.Proofs.Grammar.Definition

/-!
Analysis of a unit that has been analysed already. Nothing of the first analysis is read before it
is overwritten, so all comes out as it did. Main statement: `analyze_again`.
-/

set_option autoImplicit false

namespace Idl

namespace Binding

variable {t : SymbolTable}

theorem Alike.enterAliases {unsettled : List SymbolId} {ps qs : List PlacedTypedef}
    (same : List.Forall₂ (SameTypedef t) ps qs) {u v : SymbolTable} (frame : SameFrame t u)
    (alike : Alike unsettled u v) (sub : typedefIds t ps ⊆ unsettled) :
    Alike unsettled (ps.foldl (enterAlias t) u) (qs.foldl (enterAlias t) v) := by
  induction same generalizing u v with
  | nil => exact alike
  | @cons p q ps qs first _ ih =>
    have frame' := frame.trans alike.outline.frame
    rw [List.foldl_cons, List.foldl_cons]
    refine ih (sameFrame_enterAlias frame p) ?_ fun id mem => sub ?_
    · rw [enterAlias_eq frame, enterAlias_eq frame', first.place]
      cases place : p.id? t with
      | none => exact alike
      | some id =>
        exact alike.setOutline (sub (List.mem_filterMap.mpr ⟨p, by simp, place⟩)) first.outline
    · obtain ⟨p, inside, place⟩ := List.mem_filterMap.mp mem
      exact List.mem_filterMap.mpr ⟨p, List.mem_cons_of_mem _ inside, place⟩

/-- The pass over typedefs leaves the types open that the walk has yet to bind. -/
theorem alike_allAliases {ds es : List Definition} (kept : KeptAll ds es) (scope : SymbolId)
    (t : SymbolTable) : Alike (typedefIds t (allTypedefs t scope ds)) (allAliases scope ds t)
      (allAliases scope es t) := by
  have start : Alike (typedefIds t (allTypedefs t scope ds)) t t :=
    ⟨SameOutline.refl t, fun _ => rfl, fun _ _ => rfl⟩
  rw [allAliases_eq t scope ds t (SameFrame.refl t), allAliases_eq t scope es t (SameFrame.refl t)]
  exact start.enterAliases (kept.typedefs t scope) (SameFrame.refl t) (List.Subset.refl _)

end Binding

/-- Bound a second time, a unit declares what it did and is bound as it was. -/
theorem bindUnit_again (s : Specification) (formed : allFormed s.definitions) (t : SymbolTable) :
    buildScopes (bindUnit s t).specification = buildScopes s ∧
      bindUnit (bindUnit s t).specification t = bindUnit s t := by
  have frame : SameFrame t (Binding.allAliases SymbolTable.rootId s.definitions t) := by
    rw [Binding.allAliases_eq t _ _ t (SameFrame.refl t)]
    exact Binding.sameFrame_enterAliases (SameFrame.refl t) _
  obtain ⟨ds, es, u, run, kept, _, again⟩ := Binding.echo_definitions t SymbolTable.rootId
    s.definitions formed ⟨Binding.allAliases SymbolTable.rootId s.definitions t, []⟩ frame
  have first : bindUnit s t = ⟨{ s with definitions := ds }, u, [] ++ es⟩ := by
    simp only [bindUnit, run]
  have open' := Binding.alike_allAliases kept SymbolTable.rootId t
  obtain ⟨u', run', alike⟩ := again
    ⟨Binding.allAliases SymbolTable.rootId ds t, []⟩ [] (by rwa [List.append_nil])
  rw [first]
  refine ⟨kept.scopes _ _, ?_⟩
  simp only [bindUnit, run', alike.eq]

/-- Analysis of its own result gives the same tree, symbols, model and diagnostics. -/
theorem analyze_again (strictForward : Bool) (limit : Nat) (text : String) :
    analyze strictForward
        (analyze strictForward (parseText limit text).specification).specification =
      analyze strictForward (parseText limit text).specification := by
  have formed : (parseText limit text).specification.Formed :=
    (Grammar.found_parseTokens limit (tokenize text).tokens (fine_tokenize text)).good
  generalize (parseText limit text).specification = s at formed ⊢
  obtain ⟨scopes, bound⟩ := bindUnit_again s ((allFormed_iff _).mpr formed.definitions)
    (buildScopes s).table
  have specification : (analyze strictForward s).specification =
      (bindUnit s (buildScopes s).table).specification := rfl
  rw [specification]
  simp only [analyze, scopes, bound]

end Idl
