import Idl.Scope.Table

/-!
What typedefs name, ahead of the walk over a tree. A constant may then have a type that is named
further down.
-/

set_option autoImplicit false

namespace Idl.Binding

/-- The names in a type bound, and nothing else; one that refers to no type gets no symbol. -/
def namesBound (table : SymbolTable) (scope : SymbolId) : TypeSpec → TypeSpec
  | .named type =>
    let target := (table.resolve scope type.name).toOption.filter fun id => (table.kind id).isType
    .named { type with target }
  | .sequence element bound => .sequence (namesBound table scope element) bound
  | .set element bound => .set (namesBound table scope element) bound
  | .map key value bound =>
    .map (namesBound table scope key) (namesBound table scope value) bound
  | .struct t => .struct t
  | .union t => .union t
  | .primitive k => .primitive k
  | .string bound => .string bound
  | .wstring bound => .wstring bound
  | .fixed args => .fixed args
  | .enum t => .enum t
  | .bitset t => .bitset t
  | .bitmask t => .bitmask t

/-- The declarator names an alias of the type. -/
def aliasTo (type : TypeSpec) (table : SymbolTable) (d : Declarator) : SymbolTable :=
  match table.definedAt? d.name.span with
  | some id => table.setAlias id ⟨type, !d.dims.isEmpty⟩
  | none => table

mutual

/-- Binds the types of typedefs ahead of the walk, in modules and bodies of exports. -/
def aliases (scope : SymbolId) : Definition → SymbolTable → SymbolTable
  | ⟨_, kind, _⟩, table => kindAliases scope kind table

def kindAliases (scope : SymbolId) : DefinitionKind Definition → SymbolTable → SymbolTable
  | .module ⟨name, ds⟩, table =>
    match table.definedAt? name.span with
    | some id => allAliases id ds table
    | none => table
  | .typedef d, table => d.declarators.foldl (aliasTo (namesBound table scope d.type)) table
  | .interface ⟨name, _, _, body⟩, table =>
    exportAliases ((table.definedAt? name.span).getD scope) body table
  | .value ⟨name, _, _, _, _, body⟩, table =>
    exportAliases ((table.definedAt? name.span).getD scope) body table
  | .event ⟨name, _, _, _, _, body⟩, table =>
    exportAliases ((table.definedAt? name.span).getD scope) body table
  | .component ⟨name, _, _, body⟩, table =>
    exportAliases ((table.definedAt? name.span).getD scope) body table
  | .home ⟨name, _, _, _, _, body⟩, table =>
    exportAliases ((table.definedAt? name.span).getD scope) body table
  | .struct _, table => table
  | .union _, table => table
  | .enum _, table => table
  | .bitset _, table => table
  | .bitmask _, table => table
  | .const _, table => table
  | .exception _, table => table
  | .native _, table => table
  | .forward _, table => table
  | .valueBox _, table => table
  | .typeId _, table => table
  | .typePrefix _, table => table
  | .annotationDecl _, table => table

def allAliases (scope : SymbolId) : List Definition → SymbolTable → SymbolTable
  | [], table => table
  | d :: ds, table => allAliases scope ds (aliases scope d table)

def exportAliases (scope : SymbolId) : List (Export Definition) → SymbolTable → SymbolTable
  | [], table => table
  | .definition d :: rest, table => exportAliases scope rest (aliases scope d table)
  | .attribute _ :: rest, table => exportAliases scope rest table
  | .operation _ :: rest, table => exportAliases scope rest table
  | .stateMember _ :: rest, table => exportAliases scope rest table
  | .initializer _ :: rest, table => exportAliases scope rest table
  | .port _ :: rest, table => exportAliases scope rest table

end

end Idl.Binding
