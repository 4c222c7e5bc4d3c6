import Idl.Proofs.Grammar.Formed
import Idl.Proofs.Scope.Moves

/-!
What a unit of the form of the grammar declares has identifiers for names. Main statement:
`Specification.Formed.named`.
-/

set_option autoImplicit false

namespace Idl

/-- The names of the declarations are identifiers. -/
abbrev Identified (ds : List Declaration) : Prop := NamedBy (fun name => IsIdent name.name) ds

theorem EnumType.Formed.identified {t : EnumType} (formed : t.Formed) (kind : SymbolKind) :
    Identified (listing t.name kind t.enumerators) :=
  namedBy_listing.mpr ⟨formed.name, fun v mem => (formed.enumerators v mem).name⟩

theorem BitmaskType.Formed.identified {t : BitmaskType} (formed : t.Formed) (kind : SymbolKind) :
    Identified (listing t.name kind t.values) :=
  namedBy_listing.mpr ⟨formed.name, fun v mem => (formed.values v mem).name⟩

theorem identified_nil : Identified [] := fun _ mem => by cases mem

theorem identified_single {name : Ident} (role : Role) (formed : name.Formed) :
    Identified [⟨name, role⟩] := namedBy_cons.mpr ⟨formed, identified_nil⟩

mutual

theorem TypeSpec.identified : (τ : TypeSpec) → τ.Formed → Identified τ.declarations
  | .struct ⟨name, _, fields, _⟩, formed => by
    rw [TypeSpec.Formed] at formed
    rw [TypeSpec.declarations, Identified, namedBy_cons]
    exact ⟨formed.1, identified_members fields formed.2.2⟩
  | .union ⟨name, ⟨_, type, _⟩, cases, _⟩, formed => by
    rw [TypeSpec.Formed] at formed
    rw [TypeSpec.declarations, Identified, namedBy_cons, namedBy_append]
    exact ⟨formed.1, type.identified formed.2.2.1, identified_cases cases formed.2.2.2.2⟩
  | .enum t, formed => by
    rw [TypeSpec.Formed] at formed
    rw [TypeSpec.declarations]
    exact formed.identified .enum
  | .bitset t, formed => by
    rw [TypeSpec.Formed] at formed
    rw [TypeSpec.declarations]
    exact identified_single _ formed.name
  | .bitmask t, formed => by
    rw [TypeSpec.Formed] at formed
    rw [TypeSpec.declarations]
    exact formed.identified .bitmask
  | .sequence element _, formed => by
    rw [TypeSpec.Formed] at formed
    rw [TypeSpec.declarations]
    exact element.identified formed.1
  | .set element _, formed => by
    rw [TypeSpec.Formed] at formed
    rw [TypeSpec.declarations]
    exact element.identified formed.1
  | .map key value _, formed => by
    rw [TypeSpec.Formed] at formed
    rw [TypeSpec.declarations, Identified, namedBy_append]
    exact ⟨key.identified formed.1, value.identified formed.2.1⟩
  | .primitive _, _ => by rw [TypeSpec.declarations]; exact identified_nil
  | .named _, _ => by rw [TypeSpec.declarations]; exact identified_nil
  | .string _, _ => by rw [TypeSpec.declarations]; exact identified_nil
  | .wstring _, _ => by rw [TypeSpec.declarations]; exact identified_nil
  | .fixed _, _ => by rw [TypeSpec.declarations]; exact identified_nil

theorem identified_members : (ms : List (Member TypeSpec)) → membersFormed ms →
    Identified (memberDeclarations ms)
  | [], _ => by rw [memberDeclarations]; exact identified_nil
  | ⟨_, type, _, _⟩ :: rest, formed => by
    rw [membersFormed] at formed
    rw [memberDeclarations, Identified, namedBy_append]
    exact ⟨type.identified formed.1.2.1, identified_members rest formed.2⟩

theorem identified_cases : (cs : List (UnionCase TypeSpec)) → casesFormed cs →
    Identified (caseDeclarations cs)
  | [], _ => by rw [caseDeclarations]; exact identified_nil
  | ⟨_, _, type, _, _⟩ :: rest, formed => by
    rw [casesFormed] at formed
    rw [caseDeclarations, Identified, namedBy_append]
    exact ⟨type.identified formed.1.2.2.2.1, identified_cases rest formed.2⟩

end

theorem Typedef.Formed.identified {d : Typedef} (formed : d.Formed) :
    Identified d.declarations := by
  rw [Typedef.declarations, Identified, namedBy_append]
  refine ⟨d.type.identified formed.type, fun x mem => ?_⟩
  obtain ⟨declarator, inside, rfl⟩ := List.mem_map.mp mem
  exact (formed.declarators declarator inside).name

mutual

theorem Definition.identified : (d : Definition) → d.Formed → Identified d.declarations
  | ⟨_, kind, _⟩, formed => by
    rw [Definition.Formed] at formed
    rw [Definition.declarations]
    exact identified_kind kind formed.2

theorem identified_kind : (kind : DefinitionKind Definition) → kindFormed kind →
    Identified (kindDeclarations kind)
  | .module ⟨name, ds⟩, formed => by
    rw [kindFormed] at formed
    rw [kindDeclarations, Identified, namedBy_cons]
    exact ⟨formed.1, identified_all ds formed.2⟩
  | .struct t, formed => by
    rw [kindFormed] at formed
    rw [kindDeclarations]
    exact (TypeSpec.struct t).identified formed
  | .union t, formed => by
    rw [kindFormed] at formed
    rw [kindDeclarations]
    exact (TypeSpec.union t).identified formed
  | .enum t, formed => by
    rw [kindFormed] at formed
    rw [kindDeclarations]
    exact formed.identified .enum
  | .bitset t, formed => by
    rw [kindFormed] at formed
    rw [kindDeclarations]
    exact identified_single _ formed.name
  | .bitmask t, formed => by
    rw [kindFormed] at formed
    rw [kindDeclarations]
    exact formed.identified .bitmask
  | .typedef d, formed => by
    rw [kindFormed] at formed
    rw [kindDeclarations]
    exact formed.identified
  | .const d, formed => by
    rw [kindFormed] at formed
    rw [kindDeclarations]
    exact identified_single _ formed.name
  | .exception d, formed => by
    rw [kindFormed] at formed
    rw [kindDeclarations, Identified, namedBy_cons]
    exact ⟨formed.name, identified_members _ ((membersFormed_iff _).mpr formed.members)⟩
  | .native name, formed => by
    rw [kindFormed] at formed
    rw [kindDeclarations]
    exact identified_single _ formed
  | .forward d, formed => by
    rw [kindFormed] at formed
    rw [kindDeclarations]
    exact identified_single _ formed.name
  | .interface ⟨name, _, _, body⟩, formed => by
    rw [kindFormed] at formed
    rw [kindDeclarations, Identified, namedBy_cons]
    exact ⟨formed.1, identified_exports body formed.2.2.2⟩
  | .value ⟨name, _, _, _, _, body⟩, formed => by
    rw [kindFormed] at formed
    rw [kindDeclarations, Identified, namedBy_cons]
    exact ⟨formed.1.name, identified_exports body formed.2⟩
  | .event ⟨name, _, _, _, _, body⟩, formed => by
    rw [kindFormed] at formed
    rw [kindDeclarations, Identified, namedBy_cons]
    exact ⟨formed.1.name, identified_exports body formed.2⟩
  | .valueBox d, formed => by
    rw [kindFormed] at formed
    rw [kindDeclarations]
    exact identified_single _ formed.name
  | .component ⟨name, _, _, body⟩, formed => by
    rw [kindFormed] at formed
    rw [kindDeclarations, Identified, namedBy_cons]
    exact ⟨formed.1.1, identified_exports body formed.2⟩
  | .home ⟨name, _, _, _, _, body⟩, formed => by
    rw [kindFormed] at formed
    rw [kindDeclarations, Identified, namedBy_cons]
    exact ⟨formed.1.1, identified_exports body formed.2⟩
  | .typeId _, _ => by rw [kindDeclarations]; exact identified_nil
  | .typePrefix _, _ => by rw [kindDeclarations]; exact identified_nil
  | .annotationDecl _, _ => by rw [kindDeclarations]; exact identified_nil

theorem identified_all : (ds : List Definition) → allFormed ds → Identified (allDeclarations ds)
  | [], _ => by rw [allDeclarations]; exact identified_nil
  | d :: ds, formed => by
    rw [allFormed] at formed
    rw [allDeclarations, Identified, namedBy_append]
    exact ⟨d.identified formed.1, identified_all ds formed.2⟩

theorem identified_exports : (es : List (Export Definition)) → exportsFormed es →
    Identified (exportDeclarations es)
  | [], _ => by rw [exportDeclarations]; exact identified_nil
  | .definition d :: rest, formed => by
    rw [exportsFormed] at formed
    rw [exportDeclarations, Identified, namedBy_append]
    exact ⟨d.identified formed.1.1, identified_exports rest formed.2⟩
  | .stateMember m :: rest, formed => by
    rw [exportsFormed] at formed
    rw [exportDeclarations, Identified, namedBy_append]
    exact ⟨m.member.type.identified formed.1.type, identified_exports rest formed.2⟩
  | .attribute _ :: rest, formed => by
    rw [exportsFormed] at formed
    rw [exportDeclarations]
    exact identified_exports rest formed.2
  | .operation _ :: rest, formed => by
    rw [exportsFormed] at formed
    rw [exportDeclarations]
    exact identified_exports rest formed.2
  | .initializer _ :: rest, formed => by
    rw [exportsFormed] at formed
    rw [exportDeclarations]
    exact identified_exports rest formed.2
  | .port _ :: rest, formed => by
    rw [exportsFormed] at formed
    rw [exportDeclarations]
    exact identified_exports rest formed.2

end

theorem Specification.Formed.named {s : Specification} (formed : s.Formed) :
    Identified s.declarations :=
  identified_all s.definitions ((allFormed_iff _).mpr formed.definitions)

end Idl
