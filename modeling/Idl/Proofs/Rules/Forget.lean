import Idl.Proofs.Scope.Forget
import Idl.Proofs.Scope.Inventory
import Idl.Rules.Unit

/-!
The rules over a table that forgets a place. A unit without an identifier there breaks the same
rules. Main statement: `breachesOf_forget`.
-/

set_option autoImplicit false

namespace Idl

namespace Rules

variable {place : Nat} {t : SymbolTable}

theorem overlooks_report (bs : Breaches) : Overlooks place t (report bs) := rfl

theorem overlooks_bitsetType {b : BitsetType} (avoids : b.name.Avoids place) :
    Overlooks place t (bitsetType b) := by
  have found := t.definedAt?_forget avoids
  rw [bitsetType]
  refine (overlooks_report _).bind fun _ => Overlooks.bind rfl fun s =>
    (overlooks_report _).bind fun _ => ?_
  dsimp only
  split
  on_goal 1 => refine (overlooks_report _).bind fun _ => ?_
  -- after the check of the width, both branches look for the symbol of the bitset
  all_goals
    apply Overlooks.reading
    rw [found]
    split <;> rfl

theorem overlooks_discriminant (union : Ident) {d : SwitchType TypeSpec}
    (aliases : t.AliasesAvoid place) (avoids : d.type.Avoids place) :
    Overlooks place t (discriminant union d) := by
  rw [discriminant]
  apply Overlooks.reading
  rw [SymbolTable.discriminantType?_forget aliases avoids]
  split <;> rfl

mutual

theorem overlooks_typeSpec (aliases : t.AliasesAvoid place) : (τ : TypeSpec) →
    NamedBy (Ident.Avoids place) τ.declarations → Overlooks place t (typeSpec τ)
  | .primitive _, _ => by rw [typeSpec]; exact .pure ()
  | .named _, _ => by rw [typeSpec]; exact .pure ()
  | .sequence element bound, named => by
    rw [TypeSpec.declarations] at named
    rw [typeSpec]
    exact (overlooks_typeSpec aliases element named).bind fun _ => overlooks_report _
  | .set element bound, named => by
    rw [TypeSpec.declarations] at named
    rw [typeSpec]
    exact (overlooks_typeSpec aliases element named).bind fun _ => overlooks_report _
  | .map key value bound, named => by
    rw [TypeSpec.declarations, namedBy_append] at named
    rw [typeSpec]
    exact (overlooks_typeSpec aliases key named.1).bind fun _ =>
      (overlooks_typeSpec aliases value named.2).bind fun _ => overlooks_report _
  | .string bound, _ => by rw [typeSpec]; exact overlooks_report _
  | .wstring bound, _ => by rw [typeSpec]; exact overlooks_report _
  | .fixed none, _ => by rw [typeSpec]; exact .pure ()
  | .fixed (some (digits, scale)), _ => by rw [typeSpec]; exact overlooks_report _
  | .struct ⟨name, _, fields, _⟩, named => by
    rw [TypeSpec.declarations, namedBy_cons] at named
    rw [typeSpec]
    exact (overlooks_report _).bind fun _ => overlooks_members aliases fields named.2
  | .union ⟨name, ⟨as, type, span⟩, cases, _⟩, named => by
    rw [TypeSpec.declarations, namedBy_cons, namedBy_append] at named
    rw [typeSpec]
    refine (overlooks_report _).bind fun _ => ?_
    split
    · exact overlooks_unionCases aliases name _ cases named.2.2
    · exact (overlooks_typeSpec aliases type named.2.1).bind fun _ =>
        (overlooks_discriminant name (d := ⟨as, type, span⟩) aliases named.2.1).bind fun _ =>
        overlooks_unionCases aliases name _ cases named.2.2
  | .enum t, _ => by rw [typeSpec]; exact overlooks_report _
  | .bitset t, named => by
    rw [TypeSpec.declarations, namedBy_cons] at named
    rw [typeSpec]
    exact overlooks_bitsetType named.1
  | .bitmask t, _ => by rw [typeSpec]; exact overlooks_report _

theorem overlooks_members (aliases : t.AliasesAvoid place) : (ms : List (Member TypeSpec)) →
    NamedBy (Ident.Avoids place) (memberDeclarations ms) → Overlooks place t (members ms)
  | [], _ => by rw [members]; exact .pure ()
  | ⟨_, type, ds, _⟩ :: rest, named => by
    rw [memberDeclarations, namedBy_append] at named
    rw [members]
    exact (overlooks_typeSpec aliases type named.1).bind fun _ =>
      (overlooks_report _).bind fun _ => overlooks_members aliases rest named.2

theorem overlooks_unionCases (aliases : t.AliasesAvoid place) (union : Ident) (seen : Labels) :
    (cs : List (UnionCase TypeSpec)) → NamedBy (Ident.Avoids place) (caseDeclarations cs) →
    Overlooks place t (unionCases union seen cs)
  | [], _ => by rw [unionCases]; exact .pure ()
  | ⟨labels, _, type, d, _⟩ :: rest, named => by
    rw [caseDeclarations, namedBy_append] at named
    rw [unionCases]
    exact (overlooks_report _).bind fun _ => (overlooks_typeSpec aliases type named.1).bind fun _ =>
      (overlooks_report _).bind fun _ => overlooks_unionCases aliases union _ rest named.2

end

mutual

theorem overlooks_definition (aliases : t.AliasesAvoid place) : (d : Definition) →
    NamedBy (Ident.Avoids place) d.inventory → Overlooks place t (definition d)
  | ⟨as, kind, _⟩, named => by
    rw [Definition.inventory] at named
    rw [definition]
    exact overlooks_definitionKind aliases as kind named

theorem overlooks_definitionKind (aliases : t.AliasesAvoid place) (as : List AnnotationUse) :
    (kind : DefinitionKind Definition) → NamedBy (Ident.Avoids place) (kindInventory kind) →
    Overlooks place t (definitionKind as kind)
  | .module ⟨_, ds⟩, named => by
    rw [kindInventory, namedBy_cons] at named
    rw [definitionKind]
    exact overlooks_definitions aliases ds named.2
  | .struct t, named => by
    rw [kindInventory] at named
    rw [definitionKind]
    exact overlooks_typeSpec aliases (.struct t) named
  | .union t, named => by
    rw [kindInventory] at named
    rw [definitionKind]
    exact overlooks_typeSpec aliases (.union t) named
  | .enum t, _ => by rw [definitionKind]; exact overlooks_report _
  | .bitset t, named => by
    rw [kindInventory, namedBy_cons] at named
    rw [definitionKind]
    exact overlooks_bitsetType named.1
  | .bitmask t, _ => by rw [definitionKind]; exact overlooks_report _
  | .typedef d, named => by
    rw [kindInventory, Typedef.declarations, namedBy_append] at named
    rw [definitionKind]
    exact (overlooks_typeSpec aliases d.type named.1).bind fun _ => overlooks_report _
  | .const d, named => by
    rw [kindInventory, namedBy_cons] at named
    rw [definitionKind]
    exact overlooks_typeSpec aliases d.type named.2
  | .exception d, named => by
    rw [kindInventory, namedBy_cons] at named
    rw [definitionKind]
    exact (overlooks_report _).bind fun _ => overlooks_members aliases d.members named.2
  | .interface ⟨_, _, _, body⟩, named => by
    rw [kindInventory, namedBy_cons] at named
    rw [definitionKind]
    exact overlooks_exports aliases body named.2
  | .value ⟨_, _, _, _, _, body⟩, named => by
    rw [kindInventory, namedBy_cons] at named
    rw [definitionKind]
    exact overlooks_exports aliases body named.2
  | .event ⟨_, _, _, _, _, body⟩, named => by
    rw [kindInventory, namedBy_cons] at named
    rw [definitionKind]
    exact overlooks_exports aliases body named.2
  | .component ⟨_, _, _, body⟩, named => by
    rw [kindInventory, namedBy_cons] at named
    rw [definitionKind]
    exact overlooks_exports aliases body named.2
  | .home ⟨_, _, _, _, _, body⟩, named => by
    rw [kindInventory, namedBy_cons] at named
    rw [definitionKind]
    exact overlooks_exports aliases body named.2
  | .valueBox d, named => by
    rw [kindInventory, namedBy_cons] at named
    rw [definitionKind]
    exact overlooks_typeSpec aliases d.type named.2
  | .native _, _ => by rw [definitionKind]; exact .pure ()
  | .forward _, _ => by rw [definitionKind]; exact .pure ()
  | .typeId _, _ => by rw [definitionKind]; exact .pure ()
  | .typePrefix _, _ => by rw [definitionKind]; exact .pure ()
  | .annotationDecl _, _ => by rw [definitionKind]; exact .pure ()

theorem overlooks_definitions (aliases : t.AliasesAvoid place) : (ds : List Definition) →
    NamedBy (Ident.Avoids place) (allInventory ds) → Overlooks place t (definitions ds)
  | [], _ => by rw [definitions]; exact .pure ()
  | d :: ds, named => by
    rw [allInventory, namedBy_append] at named
    rw [definitions]
    exact (overlooks_definition aliases d named.1).bind fun _ =>
      overlooks_definitions aliases ds named.2

theorem overlooks_exports (aliases : t.AliasesAvoid place) : (es : List (Export Definition)) →
    NamedBy (Ident.Avoids place) (exportInventory es) → Overlooks place t (exports es)
  | [], _ => by rw [exports]; exact .pure ()
  | .definition d :: rest, named => by
    rw [exportInventory, namedBy_append] at named
    rw [exports]
    exact (overlooks_definition aliases d named.1).bind fun _ =>
      overlooks_exports aliases rest named.2
  | .stateMember m :: rest, named => by
    rw [exportInventory, namedBy_append] at named
    rw [exports]
    have single : NamedBy (Ident.Avoids place) (memberDeclarations [m.member]) := by
      rw [memberDeclarations, memberDeclarations, List.append_nil]
      exact named.1
    exact (overlooks_members aliases [m.member] single).bind fun _ =>
      overlooks_exports aliases rest named.2
  | .attribute _ :: rest, named => by
    rw [exportInventory] at named
    rw [exports]
    exact overlooks_exports aliases rest named
  | .operation _ :: rest, named => by
    rw [exportInventory] at named
    rw [exports]
    exact overlooks_exports aliases rest named
  | .initializer _ :: rest, named => by
    rw [exportInventory] at named
    rw [exports]
    exact overlooks_exports aliases rest named
  | .port _ :: rest, named => by
    rw [exportInventory] at named
    rw [exports]
    exact overlooks_exports aliases rest named

end
end Rules

/-- A unit without an identifier at the place breaks the same rules without it. -/
theorem breachesOf_forget {place : Nat} {s : Specification}
    (named : NamedBy (Ident.Avoids place) (allInventory s.definitions)) {t : SymbolTable}
    (aliases : t.AliasesAvoid place) : breachesOf s (t.forget place) = breachesOf s t := by
  have walk : (Rules.definitions s.definitions).run (t.forget place) =
      (Rules.definitions s.definitions).run t := Rules.overlooks_definitions aliases _ named
  have name (id : SymbolId) : (t.forget place).qualifiedName id = t.qualifiedName id :=
    t.sameSymbols_forget.qualifiedName id
  have twice : Rules.redeclarations (t.forget place) = Rules.redeclarations t := by
    simp only [Rules.redeclarations, name]
    rfl
  have dangling : Rules.danglingForwards (t.forget place) = Rules.danglingForwards t := by
    simp only [Rules.danglingForwards, name]
    rfl
  rw [breachesOf, breachesOf, walk, twice, dangling]

end Idl
