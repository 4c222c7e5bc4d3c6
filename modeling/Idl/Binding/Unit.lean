import Idl.Binding.Alias
import Idl.Binding.Type
import Idl.Syntax.Printer.Type

/-!
Binding: type names get the symbols they refer to, and constant expressions their values. The tree
is walked in document order, so a constant sees those before it, while a type name sees all
symbols. Typedefs are bound up front.
-/

set_option autoImplicit false

namespace Idl

namespace Binding

def typedefDeclarator (scope : SymbolId) (type : TypeSpec) (d : Declarator) : BindM Declarator := do
  let d ← declarator scope d
  modify fun b => { b with table := aliasTo type b.table d }
  return d

def typedef (scope : SymbolId) (d : Typedef) : BindM Typedef := do
  let type ← typeSpec scope d.type
  return ⟨type, ← d.declarators.mapM (typedefDeclarator scope type)⟩

/-- The expression of a constant with its value, and the slot that settles. -/
def constValue (scope : SymbolId) (type : TypeSpec) (name : Ident) (value : ConstExpr) :
    BindM (ConstExpr × ConstSlot) := do
  match ← table? (·.constType? type) with
  | some constType =>
    let (value, success) ← evaluated scope constType value
    match value.value, success with
    | some constant, true => return (value, .value constant)
    | _, _ => return (value, .failed)
  | none =>
    report (.badConstType type.text name.name) name.span
    return (value, .failed)

/-- Binds a constant and settles its symbol. -/
def constDecl (scope : SymbolId) (d : ConstDecl) : BindM ConstDecl := do
  let type ← typeSpec scope d.type
  let (value, slot) ← constValue scope type d.name d.value
  match ← defined? d.name with
  | some id => modify fun b => { b with table := b.table.setConstant id slot }
  | none => pure ()
  return { d with type, value }

def stateMember (scope : SymbolId) (m : StateMember) : BindM StateMember := do
  match ← members scope [m.member] with
  | member :: _ => return { m with member }
  | [] => return m

mutual

def definition (scope : SymbolId) : Definition → BindM Definition
  | ⟨as, kind, span⟩ => do
    let as ← annotations scope as
    return ⟨as, ← definitionKind scope kind, span⟩

def definitionKind (scope : SymbolId) :
    DefinitionKind Definition → BindM (DefinitionKind Definition)
  | .module ⟨name, ds⟩ => do
    match ← defined? name with
    | some id => return .module ⟨name, ← definitions id ds⟩
    | none => return .module ⟨name, ds⟩
  | .struct t => return .struct (← structType scope t)
  | .union t => return .union (← unionType scope t)
  | .enum t => return .enum (← enumType scope t)
  | .bitset t => return .bitset (← bitsetType scope t)
  | .bitmask t => return .bitmask (← bitmaskType scope t)
  | .typedef d => return .typedef (← typedef scope d)
  | .const d => return .const (← constDecl scope d)
  | .exception d => do
    let id ← scopeOf d.name scope
    return .exception { d with members := ← members id d.members }
  | .interface ⟨name, q, bases, body⟩ => do
    let id ← scopeOf name scope
    return .interface ⟨name, q, bases, ← exports id body⟩
  | .value ⟨name, q, truncatable, bases, supports, body⟩ => do
    let id ← scopeOf name scope
    return .value ⟨name, q, truncatable, bases, supports, ← exports id body⟩
  | .event ⟨name, q, truncatable, bases, supports, body⟩ => do
    let id ← scopeOf name scope
    return .event ⟨name, q, truncatable, bases, supports, ← exports id body⟩
  | .valueBox d => return .valueBox { d with type := ← typeSpec scope d.type }
  | .component ⟨name, b, supports, body⟩ => do
    let id ← scopeOf name scope
    return .component ⟨name, b, supports, ← exports id body⟩
  | .home ⟨name, b, supports, manages, key, body⟩ => do
    let id ← scopeOf name scope
    return .home ⟨name, b, supports, manages, key, ← exports id body⟩
  | .native name => return .native name
  | .forward d => return .forward d
  | .typeId d => return .typeId d
  | .typePrefix d => return .typePrefix d
  | .annotationDecl d => return .annotationDecl d

def definitions (scope : SymbolId) : List Definition → BindM (List Definition)
  | [] => return []
  | d :: ds => do
    let d ← definition scope d
    return d :: (← definitions scope ds)

/-- Operations, attributes, initializers and ports are left as they are. -/
def exports (scope : SymbolId) : List (Export Definition) → BindM (List (Export Definition))
  | [] => return []
  | .definition d :: rest => do
    let d ← definition scope d
    return .definition d :: (← exports scope rest)
  | .stateMember m :: rest => do
    let m ← stateMember scope m
    return .stateMember m :: (← exports scope rest)
  | .attribute a :: rest => return .attribute a :: (← exports scope rest)
  | .operation o :: rest => return .operation o :: (← exports scope rest)
  | .initializer i :: rest => return .initializer i :: (← exports scope rest)
  | .port p :: rest => return .port p :: (← exports scope rest)

end

end Binding

/-- A unit with its names bound and constants evaluated, and what that left of the symbol table. -/
structure Bound where
  specification : Specification
  table : SymbolTable
  errors : List BindingError

/-- Binds the names of a unit and evaluates its constants, over the table of its symbols. -/
def bindUnit (s : Specification) (table : SymbolTable) : Bound :=
  let root := SymbolTable.rootId
  let table := Binding.allAliases root s.definitions table
  let (definitions, b) := (Binding.definitions root s.definitions).run ⟨table, []⟩
  ⟨{ s with definitions }, b.table, b.errors⟩

end Idl
