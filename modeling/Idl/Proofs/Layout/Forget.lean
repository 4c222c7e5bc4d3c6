import Idl.Layout.Build
import Idl.Proofs.Scope.Forget
import Idl.Proofs.Scope.Inventory

/-!
Layouts over a table that forgets a place. A unit without an identifier there has the same layouts.
Main statement: `buildModel_forget`.
-/

set_option autoImplicit false

namespace Idl

namespace Layout

variable {place : Nat} {t : SymbolTable}

theorem overlooks_insert {name : Ident} (avoids : name.Avoids place) (kind : EntryKind) :
    Overlooks place t (insert name kind) := by
  rw [insert]
  apply Overlooks.reading
  rw [t.definedAt?_forget avoids]
  split
  · rfl
  · next id _ =>
    have symbol : (t.forget place).symbol id = t.symbol id := rfl
    rw [symbol, t.sameSymbols_forget.qualifiedName id]
    split <;> rfl

theorem overlooks_bitsetType {b : BitsetType} (avoids : b.name.Avoids place) :
    Overlooks place t (bitsetType b) := by
  rw [bitsetType]
  exact Overlooks.bind rfl fun m => overlooks_insert avoids _

theorem overlooks_sealedEntry {name : Ident} (avoids : name.Avoids place) :
    Overlooks place t (sealedEntry name) := by
  rw [sealedEntry]
  apply Overlooks.reading
  rw [t.definedAt?_forget avoids]
  split
  · exact (overlooks_insert avoids _).discard
  · rfl

theorem avoids_of_listing {owner : Ident} {kind : SymbolKind} {values : List Enumerator}
    (named : NamedBy (Ident.Avoids place) (listing owner kind values)) : owner.Avoids place :=
  (namedBy_listing.mp named).1

mutual

theorem overlooks_typeSpec : (τ : TypeSpec) → NamedBy (Ident.Avoids place) τ.declarations →
    Overlooks place t (typeSpec τ)
  | .primitive _, _ => by rw [typeSpec]; exact .pure _
  | .named type, _ => by
    rw [typeSpec]
    split <;> exact .pure _
  | .sequence element bound, named => by
    rw [TypeSpec.declarations] at named
    rw [typeSpec]
    exact (overlooks_typeSpec element named).bind fun _ => .pure _
  | .set element bound, named => by
    rw [TypeSpec.declarations] at named
    rw [typeSpec]
    exact (overlooks_typeSpec element named).bind fun _ => .pure _
  | .map key value bound, named => by
    rw [TypeSpec.declarations, namedBy_append] at named
    rw [typeSpec]
    exact (overlooks_typeSpec key named.1).bind fun _ =>
      (overlooks_typeSpec value named.2).bind fun _ => .pure _
  | .string bound, _ => by rw [typeSpec]; exact .pure _
  | .wstring bound, _ => by rw [typeSpec]; exact .pure _
  | .fixed none, _ => by rw [typeSpec]; exact .pure _
  | .fixed (some (digits, scale)), _ => by rw [typeSpec]; exact .pure _
  | .struct ⟨name, base, fields, _⟩, named => by
    rw [TypeSpec.declarations, namedBy_cons] at named
    rw [typeSpec]
    exact (overlooks_members fields named.2).bind fun _ =>
      (overlooks_insert named.1 _).bind fun _ => .pure _
  | .union ⟨name, ⟨_, type, _⟩, cases, _⟩, named => by
    rw [TypeSpec.declarations, namedBy_cons, namedBy_append] at named
    rw [typeSpec]
    exact (overlooks_typeSpec type named.2.1).bind fun _ =>
      (overlooks_unionCases cases named.2.2).bind fun _ =>
      (overlooks_insert named.1 _).bind fun _ => .pure _
  | .enum t, named => by
    rw [TypeSpec.declarations] at named
    rw [typeSpec]
    exact (overlooks_insert (avoids_of_listing named) _).bind fun _ => .pure _
  | .bitset t, named => by
    rw [TypeSpec.declarations, namedBy_cons] at named
    rw [typeSpec]
    exact (overlooks_bitsetType named.1).bind fun _ => .pure _
  | .bitmask t, named => by
    rw [TypeSpec.declarations] at named
    rw [typeSpec]
    exact (overlooks_insert (avoids_of_listing named) _).bind fun _ => .pure _

theorem overlooks_members : (ms : List (Member TypeSpec)) →
    NamedBy (Ident.Avoids place) (memberDeclarations ms) → Overlooks place t (members ms)
  | [], _ => by rw [members]; exact .pure _
  | ⟨as, type, ds, _⟩ :: rest, named => by
    rw [memberDeclarations, namedBy_append] at named
    rw [members]
    exact (overlooks_typeSpec type named.1).bind fun _ =>
      (overlooks_members rest named.2).bind fun _ => .pure _

theorem overlooks_unionCases : (cs : List (UnionCase TypeSpec)) →
    NamedBy (Ident.Avoids place) (caseDeclarations cs) → Overlooks place t (unionCases cs)
  | [], _ => by rw [unionCases]; exact .pure _
  | ⟨_, _, type, _, _⟩ :: rest, named => by
    rw [caseDeclarations, namedBy_append] at named
    rw [unionCases]
    exact (overlooks_typeSpec type named.1).bind fun _ =>
      (overlooks_unionCases rest named.2).bind fun _ => .pure _

end

theorem overlooks_typedef {d : Typedef} (named : NamedBy (Ident.Avoids place) d.declarations) :
    Overlooks place t (typedef d) := by
  rw [Typedef.declarations, namedBy_append] at named
  rw [typedef]
  exact (overlooks_typeSpec d.type named.1).bind fun _ =>
    .forM fun x mem => (overlooks_insert (List.forall_mem_map.mp named.2 x mem) _).discard

mutual

theorem overlooks_definition : (d : Definition) → NamedBy (Ident.Avoids place) d.inventory →
    Overlooks place t (definition d)
  | ⟨as, kind, _⟩, named => by
    rw [Definition.inventory] at named
    rw [definition]
    exact overlooks_definitionKind as kind named

theorem overlooks_definitionKind (as : List AnnotationUse) :
    (kind : DefinitionKind Definition) → NamedBy (Ident.Avoids place) (kindInventory kind) →
    Overlooks place t (definitionKind as kind)
  | .module ⟨_, ds⟩, named => by
    rw [kindInventory, namedBy_cons] at named
    rw [definitionKind]
    exact overlooks_definitions ds named.2
  | .struct t, named => by
    rw [kindInventory] at named
    rw [definitionKind]
    exact (overlooks_typeSpec (.struct t) named).discard
  | .union t, named => by
    rw [kindInventory] at named
    rw [definitionKind]
    exact (overlooks_typeSpec (.union t) named).discard
  | .enum t, named => by
    rw [kindInventory] at named
    rw [definitionKind]
    exact (overlooks_insert (avoids_of_listing named) _).discard
  | .bitset t, named => by
    rw [kindInventory, namedBy_cons] at named
    rw [definitionKind]
    exact (overlooks_bitsetType named.1).discard
  | .bitmask t, named => by
    rw [kindInventory] at named
    rw [definitionKind]
    exact (overlooks_insert (avoids_of_listing named) _).discard
  | .typedef d, named => by
    rw [kindInventory] at named
    rw [definitionKind]
    exact overlooks_typedef named
  | .const d, named => by
    rw [kindInventory, namedBy_cons] at named
    rw [definitionKind]
    split
    · exact (overlooks_insert named.1 _).discard
    · exact .pure _
  | .exception d, named => by
    rw [kindInventory, namedBy_cons] at named
    rw [definitionKind]
    exact (overlooks_members d.members named.2).bind fun _ => (overlooks_insert named.1 _).discard
  | .native name, named => by
    rw [kindInventory, namedBy_cons] at named
    rw [definitionKind]
    exact (overlooks_insert named.1 _).discard
  | .interface ⟨name, _, _, body⟩, named => by
    rw [kindInventory, namedBy_cons] at named
    rw [definitionKind]
    exact (overlooks_exports body named.2).bind fun _ => overlooks_sealedEntry named.1
  | .value ⟨name, _, _, _, _, body⟩, named => by
    rw [kindInventory, namedBy_cons] at named
    rw [definitionKind]
    exact (overlooks_exports body named.2).bind fun _ => overlooks_sealedEntry named.1
  | .event ⟨name, _, _, _, _, body⟩, named => by
    rw [kindInventory, namedBy_cons] at named
    rw [definitionKind]
    exact (overlooks_exports body named.2).bind fun _ => overlooks_sealedEntry named.1
  | .component ⟨name, _, _, body⟩, named => by
    rw [kindInventory, namedBy_cons] at named
    rw [definitionKind]
    exact (overlooks_exports body named.2).bind fun _ => overlooks_sealedEntry named.1
  | .home ⟨name, _, _, _, _, body⟩, named => by
    rw [kindInventory, namedBy_cons] at named
    rw [definitionKind]
    exact (overlooks_exports body named.2).bind fun _ => overlooks_sealedEntry named.1
  | .valueBox d, named => by
    rw [kindInventory, namedBy_cons] at named
    rw [definitionKind]
    exact overlooks_sealedEntry named.1
  | .forward _, _ => by rw [definitionKind]; exact .pure _
  | .typeId _, _ => by rw [definitionKind]; exact .pure _
  | .typePrefix _, _ => by rw [definitionKind]; exact .pure _
  | .annotationDecl _, _ => by rw [definitionKind]; exact .pure _

theorem overlooks_definitions : (ds : List Definition) →
    NamedBy (Ident.Avoids place) (allInventory ds) → Overlooks place t (definitions ds)
  | [], _ => by rw [definitions]; exact .pure _
  | d :: ds, named => by
    rw [allInventory, namedBy_append] at named
    rw [definitions]
    exact (overlooks_definition d named.1).bind fun _ => overlooks_definitions ds named.2

theorem overlooks_exports : (es : List (Export Definition)) →
    NamedBy (Ident.Avoids place) (exportInventory es) → Overlooks place t (exports es)
  | [], _ => by rw [exports]; exact .pure _
  | .definition d :: rest, named => by
    rw [exportInventory, namedBy_append] at named
    rw [exports]
    exact (overlooks_definition d named.1).bind fun _ => overlooks_exports rest named.2
  | .stateMember m :: rest, named => by
    rw [exportInventory, namedBy_append] at named
    rw [exports]
    exact overlooks_exports rest named.2
  | .attribute _ :: rest, named => by
    rw [exportInventory] at named
    rw [exports]
    exact overlooks_exports rest named
  | .operation _ :: rest, named => by
    rw [exportInventory] at named
    rw [exports]
    exact overlooks_exports rest named
  | .initializer _ :: rest, named => by
    rw [exportInventory] at named
    rw [exports]
    exact overlooks_exports rest named
  | .port _ :: rest, named => by
    rw [exportInventory] at named
    rw [exports]
    exact overlooks_exports rest named

end

end Layout

/-- A unit without an identifier at the place has the same layouts without it. -/
theorem buildModel_forget {place : Nat} {s : Specification}
    (named : NamedBy (Ident.Avoids place) (allInventory s.definitions)) (t : SymbolTable) :
    buildModel s (t.forget place) = buildModel s t := by
  have walk : (Layout.definitions s.definitions).run (t.forget place) =
      (Layout.definitions s.definitions).run t := Layout.overlooks_definitions _ named
  have entry (id : SymbolId) :
      Layout.forwardEntry (t.forget place) id = Layout.forwardEntry t id := by
    rw [Layout.forwardEntry, Layout.forwardEntry, t.sameSymbols_forget.qualifiedName id]
  rw [buildModel, buildModel, walk]
  simp only [entry]
  rfl

end Idl
