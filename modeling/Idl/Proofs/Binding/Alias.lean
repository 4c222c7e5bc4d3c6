import Idl.Binding.Alias
import Idl.Proofs.Scope.Entered
import Idl.Proofs.Scope.Frame
import Mathlib.Data.List.Nodup

/-!
The pass over typedefs ahead of the walk: it changes nothing but the types behind typedefs, and
each typedef gets the type it was declared with, with its names bound. Main statement:
`aliased_allAliases`.
-/

set_option autoImplicit false

namespace Idl

/-- A declarator of a typedef, its type and the scope that they stand in. -/
structure PlacedTypedef where
  scope : SymbolId
  type : TypeSpec
  declarator : Declarator

namespace PlacedTypedef

def declaration (p : PlacedTypedef) : Declaration := ⟨p.declarator.name, .defined .typedef⟩

def id? (t : SymbolTable) (p : PlacedTypedef) : Option SymbolId :=
  t.definedAt? p.declarator.name.span

/-- What the pass puts behind the typedef. -/
def meaning (t : SymbolTable) (p : PlacedTypedef) : Alias :=
  ⟨Binding.namesBound t p.scope p.type, !p.declarator.dims.isEmpty⟩

end PlacedTypedef

mutual

def Definition.typedefs (t : SymbolTable) (scope : SymbolId) : Definition → List PlacedTypedef
  | ⟨_, kind, _⟩ => kindTypedefs t scope kind

def kindTypedefs (t : SymbolTable) (scope : SymbolId) :
    DefinitionKind Definition → List PlacedTypedef
  | .module ⟨name, ds⟩ =>
    match t.definedAt? name.span with
    | some id => allTypedefs t id ds
    | none => []
  | .typedef d => d.declarators.map (⟨scope, d.type, ·⟩)
  | .interface ⟨name, _, _, body⟩ => exportTypedefs t ((t.definedAt? name.span).getD scope) body
  | .value ⟨name, _, _, _, _, body⟩ => exportTypedefs t ((t.definedAt? name.span).getD scope) body
  | .event ⟨name, _, _, _, _, body⟩ => exportTypedefs t ((t.definedAt? name.span).getD scope) body
  | .component ⟨name, _, _, body⟩ => exportTypedefs t ((t.definedAt? name.span).getD scope) body
  | .home ⟨name, _, _, _, _, body⟩ => exportTypedefs t ((t.definedAt? name.span).getD scope) body
  | .struct _ => []
  | .union _ => []
  | .enum _ => []
  | .bitset _ => []
  | .bitmask _ => []
  | .const _ => []
  | .exception _ => []
  | .native _ => []
  | .forward _ => []
  | .valueBox _ => []
  | .typeId _ => []
  | .typePrefix _ => []
  | .annotationDecl _ => []

def allTypedefs (t : SymbolTable) (scope : SymbolId) : List Definition → List PlacedTypedef
  | [] => []
  | d :: ds => d.typedefs t scope ++ allTypedefs t scope ds

def exportTypedefs (t : SymbolTable) (scope : SymbolId) :
    List (Export Definition) → List PlacedTypedef
  | [] => []
  | .definition d :: rest => d.typedefs t scope ++ exportTypedefs t scope rest
  | .attribute _ :: rest => exportTypedefs t scope rest
  | .operation _ :: rest => exportTypedefs t scope rest
  | .stateMember _ :: rest => exportTypedefs t scope rest
  | .initializer _ :: rest => exportTypedefs t scope rest
  | .port _ :: rest => exportTypedefs t scope rest

end

namespace Binding

variable {t u : SymbolTable}

theorem namesBound_congr (same : SameSymbols t u) (scope : SymbolId) : (τ : TypeSpec) →
    namesBound u scope τ = namesBound t scope τ
  | .named type => by simp only [namesBound, same.resolve, same.kind]
  | .sequence element _ => by rw [namesBound, namesBound, namesBound_congr same scope element]
  | .set element _ => by rw [namesBound, namesBound, namesBound_congr same scope element]
  | .map key value _ => by
    rw [namesBound, namesBound, namesBound_congr same scope key, namesBound_congr same scope value]
  | .struct _ => rfl
  | .union _ => rfl
  | .primitive _ => rfl
  | .string _ => rfl
  | .wstring _ => rfl
  | .fixed _ => rfl
  | .enum _ => rfl
  | .bitset _ => rfl
  | .bitmask _ => rfl

/-- Puts its type behind a typedef. -/
def enterAlias (t u : SymbolTable) (p : PlacedTypedef) : SymbolTable :=
  aliasTo (namesBound t p.scope p.type) u p.declarator

theorem enterAlias_eq (same : SameFrame t u) (p : PlacedTypedef) :
    enterAlias t u p = match p.id? t with
      | some id => u.setAlias id (p.meaning t)
      | none => u := by
  rw [enterAlias, aliasTo, same.definedAt?]
  rfl

theorem sameFrame_enterAlias (same : SameFrame t u) (p : PlacedTypedef) :
    SameFrame t (enterAlias t u p) := by
  rw [enterAlias_eq same]
  split
  · exact same.trans (SameFrame.setAlias u _ _)
  · exact same

theorem sameFrame_enterAliases (same : SameFrame t u) (ps : List PlacedTypedef) :
    SameFrame t (ps.foldl (enterAlias t) u) := by
  induction ps generalizing u with
  | nil => exact same
  | cons p ps ih => exact ih (sameFrame_enterAlias same p)

theorem constant_enterAliases (same : SameFrame t u) (ps : List PlacedTypedef) (id : SymbolId) :
    ((ps.foldl (enterAlias t) u).symbol id).constant = (u.symbol id).constant := by
  induction ps generalizing u with
  | nil => rfl
  | cons p ps ih =>
    rw [List.foldl_cons, ih (sameFrame_enterAlias same p), enterAlias_eq same]
    split
    · exact u.modify_aspect Symbol.constant _ id _ fun _ => rfl
    · rfl

/-- Typedefs of other symbols leave an alias alone. -/
theorem aliased_enterAliases_of_ne (same : SameFrame t u) (ps : List PlacedTypedef)
    {id : SymbolId} (other : ∀ p ∈ ps, p.id? t ≠ some id) :
    ((ps.foldl (enterAlias t) u).symbol id).aliased = (u.symbol id).aliased := by
  induction ps generalizing u with
  | nil => rfl
  | cons p ps ih =>
    rw [List.foldl_cons, ih (sameFrame_enterAlias same p) fun q mem => other q (by simp [mem]),
      enterAlias_eq same]
    split
    · next i place =>
      have ne : id ≠ i := fun eq => other p (by simp) (eq ▸ place)
      rw [SymbolTable.setAlias, SymbolTable.symbol_modify, if_neg fun h => ne h.1]
    · rfl

/-- Of typedefs of distinct symbols, each keeps its own meaning. -/
theorem aliased_enterAliases (same : SameFrame t u) (ps : List PlacedTypedef)
    (distinct : (ps.map (·.id? t)).Nodup) {p : PlacedTypedef} (mem : p ∈ ps) {id : SymbolId}
    (place : p.id? t = some id) (used : id < u.size) :
    ((ps.foldl (enterAlias t) u).symbol id).aliased = some (p.meaning t) := by
  induction ps generalizing u with
  | nil => cases mem
  | cons q ps ih =>
    rw [List.map_cons, List.nodup_cons] at distinct
    have size : (enterAlias t u q).size = u.size := by
      rw [enterAlias_eq same]
      split
      · exact SymbolTable.size_modify _ _ _
      · rfl
    rcases List.mem_cons.mp mem with rfl | mem
    · have other : ∀ q ∈ ps, q.id? t ≠ some id := fun q inside eq =>
        distinct.1 (List.mem_map.mpr ⟨q, inside, eq.trans place.symm⟩)
      rw [List.foldl_cons, aliased_enterAliases_of_ne (sameFrame_enterAlias same p) ps other,
        enterAlias_eq same, place]
      simp only [SymbolTable.setAlias]
      rw [SymbolTable.symbol_modify, if_pos ⟨rfl, used⟩]
    · exact ih (sameFrame_enterAlias same q) distinct.2 mem (by rw [size]; exact used)

/-! The pass takes the typedefs one after another. -/

theorem typedef_aliases (same : SameFrame t u) (scope : SymbolId) (d : Typedef) :
    d.declarators.foldl (aliasTo (namesBound u scope d.type)) u =
      (d.declarators.map (⟨scope, d.type, ·⟩)).foldl (enterAlias t) u := by
  rw [namesBound_congr same.same, List.foldl_map]
  rfl

mutual

theorem aliases_eq (t : SymbolTable) (scope : SymbolId) : (d : Definition) →
    (u : SymbolTable) → SameFrame t u →
    aliases scope d u = (d.typedefs t scope).foldl (enterAlias t) u
  | ⟨_, kind, _⟩, u, same => by
    rw [aliases, Definition.typedefs]
    exact kindAliases_eq t scope kind u same

theorem kindAliases_eq (t : SymbolTable) (scope : SymbolId) :
    (kind : DefinitionKind Definition) → (u : SymbolTable) → SameFrame t u →
    kindAliases scope kind u = (kindTypedefs t scope kind).foldl (enterAlias t) u
  | .module ⟨name, ds⟩, u, same => by
    rw [kindAliases, kindTypedefs, same.definedAt?]
    cases t.definedAt? name.span with
    | some id => exact allAliases_eq t id ds u same
    | none => rfl
  | .typedef d, u, same => by
    rw [kindAliases, kindTypedefs]
    exact typedef_aliases same scope d
  | .interface ⟨name, _, _, body⟩, u, same => by
    rw [kindAliases, kindTypedefs, same.definedAt?]
    exact exportAliases_eq t _ body u same
  | .value ⟨name, _, _, _, _, body⟩, u, same => by
    rw [kindAliases, kindTypedefs, same.definedAt?]
    exact exportAliases_eq t _ body u same
  | .event ⟨name, _, _, _, _, body⟩, u, same => by
    rw [kindAliases, kindTypedefs, same.definedAt?]
    exact exportAliases_eq t _ body u same
  | .component ⟨name, _, _, body⟩, u, same => by
    rw [kindAliases, kindTypedefs, same.definedAt?]
    exact exportAliases_eq t _ body u same
  | .home ⟨name, _, _, _, _, body⟩, u, same => by
    rw [kindAliases, kindTypedefs, same.definedAt?]
    exact exportAliases_eq t _ body u same
  | .struct _, _, _ => by rw [kindAliases, kindTypedefs]; rfl
  | .union _, _, _ => by rw [kindAliases, kindTypedefs]; rfl
  | .enum _, _, _ => by rw [kindAliases, kindTypedefs]; rfl
  | .bitset _, _, _ => by rw [kindAliases, kindTypedefs]; rfl
  | .bitmask _, _, _ => by rw [kindAliases, kindTypedefs]; rfl
  | .const _, _, _ => by rw [kindAliases, kindTypedefs]; rfl
  | .exception _, _, _ => by rw [kindAliases, kindTypedefs]; rfl
  | .native _, _, _ => by rw [kindAliases, kindTypedefs]; rfl
  | .forward _, _, _ => by rw [kindAliases, kindTypedefs]; rfl
  | .valueBox _, _, _ => by rw [kindAliases, kindTypedefs]; rfl
  | .typeId _, _, _ => by rw [kindAliases, kindTypedefs]; rfl
  | .typePrefix _, _, _ => by rw [kindAliases, kindTypedefs]; rfl
  | .annotationDecl _, _, _ => by rw [kindAliases, kindTypedefs]; rfl

theorem allAliases_eq (t : SymbolTable) (scope : SymbolId) : (ds : List Definition) →
    (u : SymbolTable) → SameFrame t u →
    allAliases scope ds u = (allTypedefs t scope ds).foldl (enterAlias t) u
  | [], _, _ => by rw [allAliases, allTypedefs]; rfl
  | d :: ds, u, same => by
    rw [allAliases, allTypedefs, List.foldl_append, aliases_eq t scope d u same]
    exact allAliases_eq t scope ds _ (sameFrame_enterAliases same _)

theorem exportAliases_eq (t : SymbolTable) (scope : SymbolId) : (es : List (Export Definition)) →
    (u : SymbolTable) → SameFrame t u →
    exportAliases scope es u = (exportTypedefs t scope es).foldl (enterAlias t) u
  | [], _, _ => by rw [exportAliases, exportTypedefs]; rfl
  | .definition d :: rest, u, same => by
    rw [exportAliases, exportTypedefs, List.foldl_append, aliases_eq t scope d u same]
    exact exportAliases_eq t scope rest _ (sameFrame_enterAliases same _)
  | .attribute _ :: rest, u, same => by
    rw [exportAliases, exportTypedefs]
    exact exportAliases_eq t scope rest u same
  | .operation _ :: rest, u, same => by
    rw [exportAliases, exportTypedefs]
    exact exportAliases_eq t scope rest u same
  | .stateMember _ :: rest, u, same => by
    rw [exportAliases, exportTypedefs]
    exact exportAliases_eq t scope rest u same
  | .initializer _ :: rest, u, same => by
    rw [exportAliases, exportTypedefs]
    exact exportAliases_eq t scope rest u same
  | .port _ :: rest, u, same => by
    rw [exportAliases, exportTypedefs]
    exact exportAliases_eq t scope rest u same

end

end Binding

/-! Typedefs are declared. -/

mutual

theorem Definition.typedefs_sublist (t : SymbolTable) (scope : SymbolId) : (d : Definition) →
    ((d.typedefs t scope).map PlacedTypedef.declaration).Sublist d.declarations
  | ⟨_, kind, _⟩ => by
    rw [Definition.typedefs, Definition.declarations]
    exact kindTypedefs_sublist t scope kind

theorem kindTypedefs_sublist (t : SymbolTable) (scope : SymbolId) :
    (kind : DefinitionKind Definition) →
    ((kindTypedefs t scope kind).map PlacedTypedef.declaration).Sublist (kindDeclarations kind)
  | .module ⟨name, ds⟩ => by
    rw [kindTypedefs, kindDeclarations]
    cases t.definedAt? name.span with
    | some id => exact (allTypedefs_sublist t id ds).cons _
    | none => exact List.nil_sublist _
  | .typedef d => by
    rw [kindTypedefs, kindDeclarations, Typedef.declarations, List.map_map]
    exact List.sublist_append_right _ _
  | .interface ⟨name, _, _, body⟩ => by
    rw [kindTypedefs, kindDeclarations]
    exact (exportTypedefs_sublist t _ body).cons _
  | .value ⟨name, _, _, _, _, body⟩ => by
    rw [kindTypedefs, kindDeclarations]
    exact (exportTypedefs_sublist t _ body).cons _
  | .event ⟨name, _, _, _, _, body⟩ => by
    rw [kindTypedefs, kindDeclarations]
    exact (exportTypedefs_sublist t _ body).cons _
  | .component ⟨name, _, _, body⟩ => by
    rw [kindTypedefs, kindDeclarations]
    exact (exportTypedefs_sublist t _ body).cons _
  | .home ⟨name, _, _, _, _, body⟩ => by
    rw [kindTypedefs, kindDeclarations]
    exact (exportTypedefs_sublist t _ body).cons _
  | .struct _ => by rw [kindTypedefs]; exact List.nil_sublist _
  | .union _ => by rw [kindTypedefs]; exact List.nil_sublist _
  | .enum _ => by rw [kindTypedefs]; exact List.nil_sublist _
  | .bitset _ => by rw [kindTypedefs]; exact List.nil_sublist _
  | .bitmask _ => by rw [kindTypedefs]; exact List.nil_sublist _
  | .const _ => by rw [kindTypedefs]; exact List.nil_sublist _
  | .exception _ => by rw [kindTypedefs]; exact List.nil_sublist _
  | .native _ => by rw [kindTypedefs]; exact List.nil_sublist _
  | .forward _ => by rw [kindTypedefs]; exact List.nil_sublist _
  | .valueBox _ => by rw [kindTypedefs]; exact List.nil_sublist _
  | .typeId _ => by rw [kindTypedefs]; exact List.nil_sublist _
  | .typePrefix _ => by rw [kindTypedefs]; exact List.nil_sublist _
  | .annotationDecl _ => by rw [kindTypedefs]; exact List.nil_sublist _

theorem allTypedefs_sublist (t : SymbolTable) (scope : SymbolId) : (ds : List Definition) →
    ((allTypedefs t scope ds).map PlacedTypedef.declaration).Sublist (allDeclarations ds)
  | [] => by rw [allTypedefs]; exact List.nil_sublist _
  | d :: ds => by
    rw [allTypedefs, allDeclarations, List.map_append]
    exact (d.typedefs_sublist t scope).append (allTypedefs_sublist t scope ds)

theorem exportTypedefs_sublist (t : SymbolTable) (scope : SymbolId) :
    (es : List (Export Definition)) →
    ((exportTypedefs t scope es).map PlacedTypedef.declaration).Sublist (exportDeclarations es)
  | [] => by rw [exportTypedefs]; exact List.nil_sublist _
  | .definition d :: rest => by
    rw [exportTypedefs, exportDeclarations, List.map_append]
    exact (d.typedefs_sublist t scope).append (exportTypedefs_sublist t scope rest)
  | .stateMember m :: rest => by
    rw [exportTypedefs, exportDeclarations]
    exact (exportTypedefs_sublist t scope rest).trans (List.sublist_append_right _ _)
  | .attribute _ :: rest => by
    rw [exportTypedefs, exportDeclarations]
    exact exportTypedefs_sublist t scope rest
  | .operation _ :: rest => by
    rw [exportTypedefs, exportDeclarations]
    exact exportTypedefs_sublist t scope rest
  | .initializer _ :: rest => by
    rw [exportTypedefs, exportDeclarations]
    exact exportTypedefs_sublist t scope rest
  | .port _ :: rest => by
    rw [exportTypedefs, exportDeclarations]
    exact exportTypedefs_sublist t scope rest

end

/-- Typedefs at different places define different symbols. -/
theorem nodup_typedefs {t : SymbolTable} {ds : List Declaration} (entered : Entered t ds)
    (apart : Apart ds) {ps : List PlacedTypedef}
    (declared : (ps.map PlacedTypedef.declaration).Sublist ds) :
    (ps.map (·.id? t)).Nodup := by
  have mem {p : PlacedTypedef} (inside : p ∈ ps) : p.declaration ∈ ds :=
    declared.subset (List.mem_map_of_mem inside)
  have places : (ps.map fun p => p.declarator.name.span.offset).Nodup := by
    have nodup : ((ps.map PlacedTypedef.declaration).map (·.name.span.offset)).Nodup :=
      List.Nodup.sublist (declared.map _) apart
    rw [List.map_map] at nodup
    exact nodup
  refine List.Nodup.map_on (fun p inside q other same => ?_) places.of_map
  obtain ⟨i, defines⟩ := entered.defined p.declarator.name .typedef (mem inside)
  have names := entered.distinct _ _ _ _ i (mem inside) (mem other) defines.place
    (same.symm.trans defines.place)
  exact List.inj_on_of_nodup_map places inside other (congrArg (·.span.offset) names)

/-- After the pass, each typedef stands for its type with the names in it bound. -/
theorem aliased_allAliases {t : SymbolTable} {s : Specification}
    (entered : Entered t s.declarations) (apart : Apart s.declarations) {p : PlacedTypedef}
    (mem : p ∈ allTypedefs t SymbolTable.rootId s.definitions) {id : SymbolId}
    (place : p.id? t = some id) :
    ((Binding.allAliases SymbolTable.rootId s.definitions t).symbol id).aliased =
      some (p.meaning t) := by
  have declared := allTypedefs_sublist t SymbolTable.rootId s.definitions
  obtain ⟨i, defines⟩ := entered.defined p.declarator.name .typedef
    (declared.subset (List.mem_map_of_mem mem))
  have same : i = id := Option.some_inj.mp (defines.place.symm.trans place)
  rw [Binding.allAliases_eq t _ _ t (SameFrame.refl t)]
  exact Binding.aliased_enterAliases (SameFrame.refl t) _ (nodup_typedefs entered apart declared)
    mem place (same ▸ defines.used)

end Idl
