import Idl.Proofs.Scope.Moves
import Idl.Proofs.Syntax.Site

/-!
All identifiers of a tree that define something, those among them that no symbol is entered for:
types that are defined within the types of constants and value boxes. Main statement:
`allDeclarations_subset_inventory`.
-/

set_option autoImplicit false

namespace Idl

mutual

def Definition.inventory : Definition → List Declaration
  | ⟨_, kind, _⟩ => kindInventory kind

def kindInventory : DefinitionKind Definition → List Declaration
  | .module ⟨name, ds⟩ => ⟨name, .module⟩ :: allInventory ds
  | .struct t => (TypeSpec.struct t).declarations
  | .union t => (TypeSpec.union t).declarations
  | .enum t => listing t.name .enum t.enumerators
  | .bitset t => [⟨t.name, .defined .bitset⟩]
  | .bitmask t => listing t.name .bitmask t.values
  | .typedef d => d.declarations
  | .const d => ⟨d.name, .defined .const⟩ :: d.type.declarations
  | .exception d => ⟨d.name, .defined .exception⟩ :: memberDeclarations d.members
  | .native name => [⟨name, .defined .native⟩]
  | .forward d => [⟨d.name, .announced d.kind⟩]
  | .interface ⟨name, _, _, body⟩ => ⟨name, .defined .interface⟩ :: exportInventory body
  | .value ⟨name, _, _, _, _, body⟩ => ⟨name, .defined .value⟩ :: exportInventory body
  | .event ⟨name, _, _, _, _, body⟩ => ⟨name, .defined .event⟩ :: exportInventory body
  | .valueBox d => ⟨d.name, .defined .valueBox⟩ :: d.type.declarations
  | .component ⟨name, _, _, body⟩ => ⟨name, .defined .component⟩ :: exportInventory body
  | .home ⟨name, _, _, _, _, body⟩ => ⟨name, .defined .home⟩ :: exportInventory body
  | .typeId _ => []
  | .typePrefix _ => []
  | .annotationDecl _ => []

def allInventory : List Definition → List Declaration
  | [] => []
  | d :: ds => d.inventory ++ allInventory ds

def exportInventory : List (Export Definition) → List Declaration
  | [] => []
  | .definition d :: rest => d.inventory ++ exportInventory rest
  | .stateMember m :: rest => m.member.type.declarations ++ exportInventory rest
  | .attribute _ :: rest => exportInventory rest
  | .operation _ :: rest => exportInventory rest
  | .initializer _ :: rest => exportInventory rest
  | .port _ :: rest => exportInventory rest

end

mutual

theorem Definition.declarations_subset_inventory : (d : Definition) → d.declarations ⊆ d.inventory
  | ⟨_, kind, _⟩ => by
    rw [Definition.declarations, Definition.inventory]
    exact kindDeclarations_subset_inventory kind

theorem kindDeclarations_subset_inventory : (kind : DefinitionKind Definition) →
    kindDeclarations kind ⊆ kindInventory kind
  | .module ⟨name, ds⟩ => by
    rw [kindDeclarations, kindInventory]
    exact List.cons_subset_cons _ (allDeclarations_subset_inventory ds)
  | .struct _ => by rw [kindDeclarations, kindInventory]; exact List.Subset.refl _
  | .union _ => by rw [kindDeclarations, kindInventory]; exact List.Subset.refl _
  | .enum _ => by rw [kindDeclarations, kindInventory]; exact List.Subset.refl _
  | .bitset _ => by rw [kindDeclarations, kindInventory]; exact List.Subset.refl _
  | .bitmask _ => by rw [kindDeclarations, kindInventory]; exact List.Subset.refl _
  | .typedef _ => by rw [kindDeclarations, kindInventory]; exact List.Subset.refl _
  | .const _ => by
    rw [kindDeclarations, kindInventory]
    exact List.cons_subset_cons _ (List.nil_subset _)
  | .exception _ => by rw [kindDeclarations, kindInventory]; exact List.Subset.refl _
  | .native _ => by rw [kindDeclarations, kindInventory]; exact List.Subset.refl _
  | .forward _ => by rw [kindDeclarations, kindInventory]; exact List.Subset.refl _
  | .interface ⟨_, _, _, body⟩ => by
    rw [kindDeclarations, kindInventory]
    exact List.cons_subset_cons _ (exportDeclarations_subset_inventory body)
  | .value ⟨_, _, _, _, _, body⟩ => by
    rw [kindDeclarations, kindInventory]
    exact List.cons_subset_cons _ (exportDeclarations_subset_inventory body)
  | .event ⟨_, _, _, _, _, body⟩ => by
    rw [kindDeclarations, kindInventory]
    exact List.cons_subset_cons _ (exportDeclarations_subset_inventory body)
  | .valueBox _ => by
    rw [kindDeclarations, kindInventory]
    exact List.cons_subset_cons _ (List.nil_subset _)
  | .component ⟨_, _, _, body⟩ => by
    rw [kindDeclarations, kindInventory]
    exact List.cons_subset_cons _ (exportDeclarations_subset_inventory body)
  | .home ⟨_, _, _, _, _, body⟩ => by
    rw [kindDeclarations, kindInventory]
    exact List.cons_subset_cons _ (exportDeclarations_subset_inventory body)
  | .typeId _ => by rw [kindDeclarations]; exact List.nil_subset _
  | .typePrefix _ => by rw [kindDeclarations]; exact List.nil_subset _
  | .annotationDecl _ => by rw [kindDeclarations]; exact List.nil_subset _

theorem allDeclarations_subset_inventory : (ds : List Definition) →
    allDeclarations ds ⊆ allInventory ds
  | [] => by rw [allDeclarations]; exact List.nil_subset _
  | d :: ds => by
    rw [allDeclarations, allInventory]
    exact List.append_subset.mpr
      ⟨List.subset_append_of_subset_left _ d.declarations_subset_inventory,
        List.subset_append_of_subset_right _ (allDeclarations_subset_inventory ds)⟩

theorem exportDeclarations_subset_inventory : (es : List (Export Definition)) →
    exportDeclarations es ⊆ exportInventory es
  | [] => by rw [exportDeclarations]; exact List.nil_subset _
  | .definition d :: rest => by
    rw [exportDeclarations, exportInventory]
    exact List.append_subset.mpr
      ⟨List.subset_append_of_subset_left _ d.declarations_subset_inventory,
        List.subset_append_of_subset_right _ (exportDeclarations_subset_inventory rest)⟩
  | .stateMember m :: rest => by
    rw [exportDeclarations, exportInventory]
    exact List.append_subset.mpr ⟨List.subset_append_left _ _,
      List.subset_append_of_subset_right _ (exportDeclarations_subset_inventory rest)⟩
  | .attribute _ :: rest => by
    rw [exportDeclarations, exportInventory]
    exact exportDeclarations_subset_inventory rest
  | .operation _ :: rest => by
    rw [exportDeclarations, exportInventory]
    exact exportDeclarations_subset_inventory rest
  | .initializer _ :: rest => by
    rw [exportDeclarations, exportInventory]
    exact exportDeclarations_subset_inventory rest
  | .port _ :: rest => by
    rw [exportDeclarations, exportInventory]
    exact exportDeclarations_subset_inventory rest

end

theorem NamedBy.mono {P : Ident → Prop} {ds es : List Declaration} (named : NamedBy P es)
    (sub : ds ⊆ es) : NamedBy P ds := fun d mem => named d (sub mem)

end Idl
