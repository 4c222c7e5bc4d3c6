import Idl.Diagnostic
import Idl.Scope.Table

/-!
The symbol table of a unit. A name that its scope holds already is recorded as declared twice, and
its symbol can then not be reached by name. A definition takes over the symbol of a forward
declaration of its kind.
-/

set_option autoImplicit false

namespace Idl

/-- A definition of another kind than its forward declaration announced. -/
structure ForwardMismatch where
  name : Ident
  announced : SymbolKind
  defined : SymbolKind
deriving DecidableEq, Repr

def ForwardMismatch.diagnostic (m : ForwardMismatch) : Diagnostic where
  severity := .error
  phase := .semantic
  message := "`" ++ m.name.name ++ "` was forward-declared as " ++ m.announced.noun ++
    " but is defined as " ++ m.defined.noun
  span := m.name.span

/-- A table under construction. -/
structure ScopeBuilder where
  table : SymbolTable
  mismatches : List ForwardMismatch

namespace ScopeBuilder

def modify (b : ScopeBuilder) (f : SymbolTable → SymbolTable) : ScopeBuilder :=
  { b with table := f b.table }

/-- Enters a symbol under a new name. -/
def add (b : ScopeBuilder) (scope : SymbolId) (name : Ident) (kind : SymbolKind) :
    SymbolId × ScopeBuilder :=
  let (id, t) := b.table.add scope name kind
  (id, { b with table := t })

/-- Enters a symbol that no name leads to. -/
def addDetached (b : ScopeBuilder) (scope : SymbolId) (name : Ident) (kind : SymbolKind) :
    SymbolId × ScopeBuilder :=
  let (id, t) := b.table.addDetached scope name kind
  (id, { b with table := t })

/-- Enters a symbol whose name the symbol `previous` holds in the scope. -/
def addDuplicate (b : ScopeBuilder) (scope : SymbolId) (name : Ident) (kind : SymbolKind)
    (previous : SymbolId) : SymbolId × ScopeBuilder :=
  (b.modify (·.redeclare scope name previous)).addDetached scope name kind

/-- Enters a definition that nothing announces. -/
def declare (b : ScopeBuilder) (scope : SymbolId) (name : Ident) (kind : SymbolKind) :
    SymbolId × ScopeBuilder :=
  match b.table.member? scope name.name with
  | none => b.add scope name kind
  | some previous => b.addDuplicate scope name kind previous

/-- Enters a module. One with the name is opened again. -/
def openModule (b : ScopeBuilder) (scope : SymbolId) (name : Ident) : SymbolId × ScopeBuilder :=
  match b.table.member? scope name.name with
  | none => b.add scope name .module
  | some existing =>
    if b.table.kind existing = .module then (existing, b.modify (·.bindSpan name.span existing))
    else b.addDuplicate scope name .module existing

/-- Records a definition of another kind than announced. -/
def mismatch (b : ScopeBuilder) (m : ForwardMismatch) : ScopeBuilder :=
  { b with mismatches := b.mismatches ++ [m] }

/-- Enters a definition that a forward declaration may have announced. -/
def complete (b : ScopeBuilder) (scope : SymbolId) (name : Ident) (kind : ForwardKind) :
    SymbolId × ScopeBuilder :=
  let kind := SymbolKind.ofForward kind
  match b.table.member? scope name.name with
  | none => b.add scope name kind
  | some existing =>
    let symbol := b.table.symbol existing
    if !symbol.isForward then b.addDuplicate scope name kind existing
    else if symbol.kind ≠ kind then
      let (id, b) := b.addDetached scope name kind
      (id, b.mismatch ⟨name, symbol.kind, kind⟩)
    else
      (existing, b.modify fun t =>
        (t.modify existing fun s => { s with isForward := false, span := name.span }).bindSpan
          name.span existing)

/-- Enters a forward declaration. It may repeat another, or follow the definition. -/
def announce (b : ScopeBuilder) (scope : SymbolId) (d : ForwardDecl) : ScopeBuilder :=
  let kind := SymbolKind.ofForward d.kind
  match b.table.member? scope d.name.name with
  | none =>
    let (id, b) := b.add scope d.name kind
    b.modify (·.modify id fun s => { s with isForward := true })
  | some existing =>
    if b.table.kind existing = kind then b.modify (·.bindSpan d.name.span existing)
    else b.modify (·.redeclare scope d.name existing)

/-- Enters an enumerator in its enum and, under the same name, in the scope around it. -/
def enumerator (scope enum : SymbolId) (b : ScopeBuilder) (name : Ident) (ordinal : Nat) :
    ScopeBuilder :=
  let kind := SymbolKind.enumerator enum ordinal
  let slot := ConstSlot.value ⟨.enum enum, .enumerator enum ordinal name.name⟩
  match b.table.member? enum name.name with
  | some previous =>
    let (id, b) := b.addDuplicate enum name kind previous
    b.modify (·.setConstant id slot)
  | none =>
    let (id, b) := b.add enum name kind
    let b := b.modify (·.setConstant id slot)
    match b.table.member? scope name.name with
    | some previous => b.modify (·.redeclare scope name previous)
    | none => b.modify (·.addMember scope name.name id)

def enumerators (scope enum : SymbolId) (b : ScopeBuilder) (names : List Ident) : ScopeBuilder :=
  names.zipIdx.foldl (fun b (name, ordinal) => b.enumerator scope enum name ordinal) b

def enumType (b : ScopeBuilder) (scope : SymbolId) (t : EnumType) : ScopeBuilder :=
  let (id, b) := b.declare scope t.name .enum
  b.enumerators scope id (t.enumerators.map (·.name))

def bitmaskType (b : ScopeBuilder) (scope : SymbolId) (t : BitmaskType) : ScopeBuilder :=
  let (id, b) := b.declare scope t.name .bitmask
  t.values.zipIdx.foldl (fun b (v, index) => (b.declare id v.name (.bitValue id index)).2) b

mutual

/-- Enters the types that a type defines in place, in the scope it stands in. -/
def typeSpec (scope : SymbolId) : TypeSpec → ScopeBuilder → ScopeBuilder
  | .struct ⟨name, _, fields, _⟩, b =>
    let (id, b) := b.complete scope name .struct
    members id fields b
  | .union ⟨name, ⟨_, type, _⟩, cases, _⟩, b =>
    let (id, b) := b.complete scope name .union
    unionCases id cases (typeSpec id type b)
  | .enum t, b => b.enumType scope t
  | .bitset t, b => (b.declare scope t.name .bitset).2
  | .bitmask t, b => b.bitmaskType scope t
  | .sequence element _, b => typeSpec scope element b
  | .set element _, b => typeSpec scope element b
  | .map key value _, b => typeSpec scope value (typeSpec scope key b)
  | .primitive _, b => b
  | .named _, b => b
  | .string _, b => b
  | .wstring _, b => b
  | .fixed _, b => b

def members (scope : SymbolId) : List (Member TypeSpec) → ScopeBuilder → ScopeBuilder
  | [], b => b
  | ⟨_, type, _, _⟩ :: rest, b => members scope rest (typeSpec scope type b)

def unionCases (scope : SymbolId) : List (UnionCase TypeSpec) → ScopeBuilder → ScopeBuilder
  | [], b => b
  | ⟨_, _, type, _, _⟩ :: rest, b => unionCases scope rest (typeSpec scope type b)

end

/-- Enters the names of a typedef, after the types it defines in place. -/
def typedef (scope : SymbolId) (d : Typedef) (b : ScopeBuilder) : ScopeBuilder :=
  d.declarators.foldl (fun b d => (b.declare scope d.name .typedef).2) (typeSpec scope d.type b)

mutual

def definition (scope : SymbolId) : Definition → ScopeBuilder → ScopeBuilder
  | ⟨_, kind, _⟩, b => definitionKind scope kind b

def definitionKind (scope : SymbolId) : DefinitionKind Definition → ScopeBuilder → ScopeBuilder
  | .module ⟨name, ds⟩, b =>
    let (id, b) := b.openModule scope name
    definitions id ds b
  | .struct t, b => typeSpec scope (.struct t) b
  | .union t, b => typeSpec scope (.union t) b
  | .enum t, b => b.enumType scope t
  | .bitset t, b => (b.declare scope t.name .bitset).2
  | .bitmask t, b => b.bitmaskType scope t
  | .typedef d, b => typedef scope d b
  | .const d, b =>
    let (id, b) := b.declare scope d.name .const
    b.modify (·.setConstant id .pending)
  | .exception d, b =>
    let (id, b) := b.declare scope d.name .exception
    members id d.members b
  | .native name, b => (b.declare scope name .native).2
  | .forward d, b => b.announce scope d
  | .interface ⟨name, _, _, body⟩, b =>
    let (id, b) := b.complete scope name .interface
    exports id body b
  | .value ⟨name, _, _, _, _, body⟩, b =>
    let (id, b) := b.complete scope name .value
    exports id body b
  | .event ⟨name, _, _, _, _, body⟩, b =>
    let (id, b) := b.complete scope name .event
    exports id body b
  | .valueBox d, b => (b.declare scope d.name .valueBox).2
  | .component ⟨name, _, _, body⟩, b =>
    let (id, b) := b.complete scope name .component
    exports id body b
  | .home ⟨name, _, _, _, _, body⟩, b =>
    let (id, b) := b.declare scope name .home
    exports id body b
  -- annotations have names of their own, apart from all others
  | .annotationDecl _, b => b
  | .typeId _, b => b
  | .typePrefix _, b => b

def definitions (scope : SymbolId) : List Definition → ScopeBuilder → ScopeBuilder
  | [], b => b
  | d :: ds, b => definitions scope ds (definition scope d b)

def exports (scope : SymbolId) : List (Export Definition) → ScopeBuilder → ScopeBuilder
  | [], b => b
  | .definition d :: rest, b => exports scope rest (definition scope d b)
  | .stateMember m :: rest, b => exports scope rest (typeSpec scope m.member.type b)
  | .attribute _ :: rest, b => exports scope rest b
  | .operation _ :: rest, b => exports scope rest b
  | .initializer _ :: rest, b => exports scope rest b
  | .port _ :: rest, b => exports scope rest b

end

end ScopeBuilder

/-- The symbols of a unit, and its definitions of another kind than announced. -/
def buildScopes (s : Specification) : ScopeBuilder :=
  ScopeBuilder.definitions SymbolTable.rootId s.definitions ⟨.empty, []⟩

end Idl
