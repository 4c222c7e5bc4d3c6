import Idl.Proofs.Grammar.Definition
import Idl.Proofs.Layout.Clean

/-!
A unit that was parsed is well placed. Main statement: `wellPlaced_parseText`.
-/

set_option autoImplicit false

namespace Idl

/-- A constant declares nothing in its type that is not hidden, and the bits of a bitset have types
with a width. -/
def Laid.Tidy (hidden : List Declaration) : Laid → Prop
  | .const d => d.type.declarations ⊆ hidden
  | .bitset t => t.Formed
  | _ => True

theorem Laid.Tidy.mono {hidden hidden' : List Declaration} {x : Laid} (tidy : x.Tidy hidden)
    (sub : hidden ⊆ hidden') : x.Tidy hidden' := by
  cases x with
  | const d => exact List.Subset.trans tidy sub
  | bitset t => exact tidy
  | _ => trivial

mutual

theorem TypeSpec.tidy_of_laid : (τ : TypeSpec) → τ.Formed → ∀ x ∈ τ.laid, x.Tidy []
  | .struct ⟨name, base, fields, span⟩, formed, x, mem => by
    rw [TypeSpec.laid, List.mem_cons] at mem
    rw [TypeSpec.Formed] at formed
    rcases mem with rfl | mem
    · trivial
    · exact tidy_of_memberLaid fields formed.2.2 x mem
  | .union ⟨name, ⟨as, type, switchSpan⟩, cases, span⟩, formed, x, mem => by
    rw [TypeSpec.laid, List.mem_cons, List.mem_append] at mem
    rw [TypeSpec.Formed] at formed
    rcases mem with rfl | mem | mem
    · trivial
    · exact type.tidy_of_laid formed.2.2.1 x mem
    · exact tidy_of_caseLaid cases formed.2.2.2.2 x mem
  | .enum t, _, x, mem => by
    rw [TypeSpec.laid, List.mem_singleton] at mem
    rw [mem]
    trivial
  | .bitset t, formed, x, mem => by
    rw [TypeSpec.laid, List.mem_singleton] at mem
    rw [TypeSpec.Formed] at formed
    rw [mem]
    exact formed
  | .bitmask t, _, x, mem => by
    rw [TypeSpec.laid, List.mem_singleton] at mem
    rw [mem]
    trivial
  | .sequence element _, formed, x, mem => by
    rw [TypeSpec.laid] at mem
    rw [TypeSpec.Formed] at formed
    exact element.tidy_of_laid formed.1 x mem
  | .set element _, formed, x, mem => by
    rw [TypeSpec.laid] at mem
    rw [TypeSpec.Formed] at formed
    exact element.tidy_of_laid formed.1 x mem
  | .map key value _, formed, x, mem => by
    rw [TypeSpec.laid, List.mem_append] at mem
    rw [TypeSpec.Formed] at formed
    rcases mem with mem | mem
    · exact key.tidy_of_laid formed.1 x mem
    · exact value.tidy_of_laid formed.2.1 x mem
  | .primitive _, _, _, mem => by simp [TypeSpec.laid] at mem
  | .named _, _, _, mem => by simp [TypeSpec.laid] at mem
  | .string _, _, _, mem => by simp [TypeSpec.laid] at mem
  | .wstring _, _, _, mem => by simp [TypeSpec.laid] at mem
  | .fixed _, _, _, mem => by simp [TypeSpec.laid] at mem

theorem tidy_of_memberLaid : (ms : List (Member TypeSpec)) → membersFormed ms →
    ∀ x ∈ memberLaid ms, x.Tidy []
  | [], _, _, mem => by simp [memberLaid] at mem
  | ⟨_, type, _, _⟩ :: rest, formed, x, mem => by
    rw [memberLaid, List.mem_append] at mem
    rw [membersFormed] at formed
    rcases mem with mem | mem
    · exact type.tidy_of_laid formed.1.2.1 x mem
    · exact tidy_of_memberLaid rest formed.2 x mem

theorem tidy_of_caseLaid : (cs : List (UnionCase TypeSpec)) → casesFormed cs →
    ∀ x ∈ caseLaid cs, x.Tidy []
  | [], _, _, mem => by simp [caseLaid] at mem
  | ⟨_, _, type, _, _⟩ :: rest, formed, x, mem => by
    rw [caseLaid, List.mem_append] at mem
    rw [casesFormed] at formed
    rcases mem with mem | mem
    · exact type.tidy_of_laid formed.1.2.2.2.1 x mem
    · exact tidy_of_caseLaid rest formed.2 x mem

end

mutual

theorem Definition.tidy_of_laid : (d : Definition) → d.Formed → ∀ x ∈ d.laid, x.Tidy d.hidden
  | ⟨as, kind, span⟩, formed, x, mem => by
    rw [Definition.Formed] at formed
    rw [Definition.laid] at mem
    rw [Definition.hidden]
    exact tidy_of_kindLaid as kind formed.2 x mem

theorem tidy_of_kindLaid (as : List AnnotationUse) : (kind : DefinitionKind Definition) →
    kindFormed kind → ∀ x ∈ kindLaid as kind, x.Tidy (kindHidden kind)
  | .module ⟨_, ds⟩, formed, x, mem => by
    rw [kindFormed] at formed
    rw [kindLaid] at mem
    rw [kindHidden]
    exact tidy_of_allLaid ds formed.2 x mem
  | .struct t, formed, x, mem => by
    rw [kindFormed] at formed
    rw [kindLaid] at mem
    exact ((TypeSpec.struct t).tidy_of_laid formed x mem).mono (List.nil_subset _)
  | .union t, formed, x, mem => by
    rw [kindFormed] at formed
    rw [kindLaid] at mem
    exact ((TypeSpec.union t).tidy_of_laid formed x mem).mono (List.nil_subset _)
  | .enum t, _, x, mem => by
    rw [kindLaid, List.mem_singleton] at mem
    rw [mem]
    trivial
  | .bitset t, formed, x, mem => by
    rw [kindFormed] at formed
    rw [kindLaid, List.mem_singleton] at mem
    rw [mem]
    exact formed
  | .bitmask t, _, x, mem => by
    rw [kindLaid, List.mem_singleton] at mem
    rw [mem]
    trivial
  | .typedef d, formed, x, mem => by
    rw [kindFormed] at formed
    rw [kindLaid, List.mem_append, List.mem_map] at mem
    rcases mem with mem | ⟨declarator, _, rfl⟩
    · exact (d.type.tidy_of_laid formed.type x mem).mono (List.nil_subset _)
    · trivial
  | .const d, _, x, mem => by
    rw [kindLaid, List.mem_singleton] at mem
    rw [mem, kindHidden]
    exact List.Subset.refl _
  | .exception d, formed, x, mem => by
    rw [kindFormed] at formed
    rw [kindLaid, List.mem_cons] at mem
    rcases mem with rfl | mem
    · trivial
    · have members := (membersFormed_iff d.members).mpr formed.members
      exact (tidy_of_memberLaid d.members members x mem).mono (List.nil_subset _)
  | .native _, _, x, mem => by
    rw [kindLaid, List.mem_singleton] at mem
    rw [mem]
    trivial
  | .interface ⟨_, _, _, body⟩, formed, x, mem => by
    rw [kindFormed] at formed
    rw [kindLaid, List.mem_cons] at mem
    rw [kindHidden]
    rcases mem with rfl | mem
    · trivial
    · exact tidy_of_exportLaid body formed.2.2.2 x mem
  | .value ⟨_, _, _, _, _, body⟩, formed, x, mem => by
    rw [kindFormed] at formed
    rw [kindLaid, List.mem_cons] at mem
    rw [kindHidden]
    rcases mem with rfl | mem
    · trivial
    · exact tidy_of_exportLaid body formed.2 x mem
  | .event ⟨_, _, _, _, _, body⟩, formed, x, mem => by
    rw [kindFormed] at formed
    rw [kindLaid, List.mem_cons] at mem
    rw [kindHidden]
    rcases mem with rfl | mem
    · trivial
    · exact tidy_of_exportLaid body formed.2 x mem
  | .valueBox d, _, x, mem => by
    rw [kindLaid, List.mem_singleton] at mem
    rw [mem]
    trivial
  | .component ⟨_, _, _, body⟩, formed, x, mem => by
    rw [kindFormed] at formed
    rw [kindLaid, List.mem_cons] at mem
    rw [kindHidden]
    rcases mem with rfl | mem
    · trivial
    · exact tidy_of_exportLaid body formed.2 x mem
  | .home ⟨_, _, _, _, _, body⟩, formed, x, mem => by
    rw [kindFormed] at formed
    rw [kindLaid, List.mem_cons] at mem
    rw [kindHidden]
    rcases mem with rfl | mem
    · trivial
    · exact tidy_of_exportLaid body formed.2 x mem
  | .forward _, _, _, mem => by simp [kindLaid] at mem
  | .typeId _, _, _, mem => by simp [kindLaid] at mem
  | .typePrefix _, _, _, mem => by simp [kindLaid] at mem
  | .annotationDecl _, _, _, mem => by simp [kindLaid] at mem

theorem tidy_of_allLaid : (ds : List Definition) → allFormed ds →
    ∀ x ∈ allLaid ds, x.Tidy (allHidden ds)
  | [], _, _, mem => by simp [allLaid] at mem
  | d :: ds, formed, x, mem => by
    rw [allFormed] at formed
    rw [allLaid, List.mem_append] at mem
    rw [allHidden]
    rcases mem with mem | mem
    · exact (d.tidy_of_laid formed.1 x mem).mono (List.subset_append_left _ _)
    · exact (tidy_of_allLaid ds formed.2 x mem).mono (List.subset_append_right _ _)

theorem tidy_of_exportLaid : (es : List (Export Definition)) → exportsFormed es →
    ∀ x ∈ exportLaid es, x.Tidy (exportHidden es)
  | [], _, _, mem => by simp [exportLaid] at mem
  | .definition d :: rest, formed, x, mem => by
    rw [exportsFormed] at formed
    rw [exportLaid, List.mem_append] at mem
    rw [exportHidden]
    rcases mem with mem | mem
    · exact (d.tidy_of_laid formed.1.1 x mem).mono (List.subset_append_left _ _)
    · exact (tidy_of_exportLaid rest formed.2 x mem).mono (List.subset_append_right _ _)
  | .attribute _ :: rest, formed, x, mem => by
    rw [exportsFormed] at formed
    rw [exportLaid] at mem
    rw [exportHidden]
    exact tidy_of_exportLaid rest formed.2 x mem
  | .operation _ :: rest, formed, x, mem => by
    rw [exportsFormed] at formed
    rw [exportLaid] at mem
    rw [exportHidden]
    exact tidy_of_exportLaid rest formed.2 x mem
  | .stateMember _ :: rest, formed, x, mem => by
    rw [exportsFormed] at formed
    rw [exportLaid] at mem
    rw [exportHidden]
    exact tidy_of_exportLaid rest formed.2 x mem
  | .initializer _ :: rest, formed, x, mem => by
    rw [exportsFormed] at formed
    rw [exportLaid] at mem
    rw [exportHidden]
    exact tidy_of_exportLaid rest formed.2 x mem
  | .port _ :: rest, formed, x, mem => by
    rw [exportsFormed] at formed
    rw [exportLaid] at mem
    rw [exportHidden]
    exact tidy_of_exportLaid rest formed.2 x mem

end

/-- Every text parses to a unit that is well placed, whatever errors it has. -/
theorem wellPlaced_parseText (limit : Nat) (text : String) :
    WellPlaced (parseText limit text).specification := by
  have found := Grammar.found_parseTokens limit (tokenize text).tokens (fine_tokenize text)
  have same : (parseText limit text).specification =
      (parseTokens limit (tokenize text).tokens).specification := rfl
  rw [← same] at found
  generalize (parseText limit text).specification = s at found ⊢
  -- all that is declared or hidden stands at tokens of its own
  have distinct : (offsets (s.declarations ++ s.hidden)).Nodup := by
    have tokens : (((tokenize text).tokens.filter (·.isReadable)).map
        (·.span.offset)).Nodup := by
      rw [List.Nodup, List.pairwise_map]
      exact (increasing_tokenize text).imp Nat.ne_of_lt
    obtain ⟨chosen, same, inside⟩ := found.places
    exact ((perm_allPlaces s.definitions).trans same.symm).nodup_iff.mpr (tokens.sublist inside)
  rw [offsets_append] at distinct
  have laid (x : Laid) (mem : x ∈ s.laid) := tidy_of_allLaid s.definitions
    ((allFormed_iff _).mpr found.good.definitions) x mem
  have hidden (x : Declaration) (mem : x ∈ s.hidden) :
      x.name.span.offset ∉ s.declarations.map (·.name.span.offset) :=
    fun shared => (List.nodup_append.mp distinct).2.2 _ shared _ (List.mem_map_of_mem mem) rfl
  exact ⟨(List.nodup_append.mp distinct).1, hidden,
    fun d mem x inside => hidden x ((laid _ mem : d.type.declarations ⊆ _) inside),
    fun t mem f field k type => (laid _ mem : t.Formed).bitfields f field |>.type k type⟩

end Idl
