import Idl.Scope.Symbol

/-!
The symbol table. Symbols are numbered in the order they were entered, and the number of a scope is
less than the numbers of its members. A definition finds its symbol again by the place of its
identifier.
-/

set_option autoImplicit false

namespace Idl

/-- Why a name refers to nothing. -/
inductive LookupError
  | undeclared (name : String)
  | notInScope (segment : String) (scope : String)
deriving DecidableEq, Repr

def LookupError.message : LookupError → String
  | .undeclared name => "cannot resolve `" ++ name ++ "`"
  | .notInScope segment scope => "`" ++ segment ++ "` is not declared in `" ++ scope ++ "`"

structure SymbolTable where
  symbols : Array Symbol
  /-- Offsets of defining identifiers with the symbols they define, the latest first. -/
  defining : List (Nat × SymbolId)
  /-- Names declared twice, in order. -/
  redeclarations : List Redeclaration

namespace SymbolTable

/-- The number of the global scope. -/
def rootId : SymbolId := 0

/-- The global scope alone. -/
def empty : SymbolTable := ⟨#[Symbol.root], [], []⟩

def size (t : SymbolTable) : Nat := t.symbols.size

/-- Only the global scope has been entered. -/
def isEmpty (t : SymbolTable) : Bool := t.size == 1

/-- The symbol of a number; a number that is not in use stands for the global scope. -/
def symbol (t : SymbolTable) (id : SymbolId) : Symbol := t.symbols[id]?.getD Symbol.root

def kind (t : SymbolTable) (id : SymbolId) : SymbolKind := (t.symbol id).kind

/-- The numbers with their symbols, in order. -/
def toList (t : SymbolTable) : List (SymbolId × Symbol) :=
  t.symbols.toList.zipIdx.map fun (s, id) => (id, s)

def modify (t : SymbolTable) (id : SymbolId) (f : Symbol → Symbol) : SymbolTable :=
  { t with symbols := t.symbols.modify id f }

/-- The symbol that the identifier at a place defines. -/
def definedAt? (t : SymbolTable) (span : Span) : Option SymbolId := t.defining.lookup span.offset

/-- The symbol that a name stands for in a scope itself. -/
def member? (t : SymbolTable) (scope : SymbolId) (name : String) : Option SymbolId :=
  (t.symbol scope).members.lookup name

/-- A scope and the scopes around it, inside out. -/
def chain (t : SymbolTable) (id : SymbolId) : List SymbolId :=
  match (t.symbol id).parent with
  | some parent => if parent < id then id :: t.chain parent else [id]
  | none => [id]
termination_by id

/-- The symbol that a name stands for in a scope or, failing that, around it. -/
def outward? (t : SymbolTable) (scope : SymbolId) (name : String) : Option SymbolId :=
  (t.chain scope).findSome? (t.member? · name)

/-- The name with the names of the scopes around it. -/
def qualifiedName (t : SymbolTable) (id : SymbolId) : String :=
  let named := (t.chain id).filter fun i => t.kind i ≠ .root
  "::".intercalate (named.reverse.map fun i => (t.symbol i).name)

/-- Follows the names of a path, each inside what the one before it stands for. -/
def descend (t : SymbolTable) (id : SymbolId) : List String → Except LookupError SymbolId
  | [] => .ok id
  | segment :: rest =>
    match t.member? id segment with
    | some next => t.descend next rest
    | none => .error (.notInScope segment (t.qualifiedName id))

/-- What a name refers to inside `scope`. Its first segment is searched outward, or in the global
scope alone for an absolute name; no other segment is. -/
def resolve (t : SymbolTable) (scope : SymbolId) (name : ScopedName) :
    Except LookupError SymbolId :=
  let first := if name.absolute then t.member? rootId name.first.name
    else t.outward? scope name.first.name
  match first with
  | some id => t.descend id (name.more.map (·.name))
  | none => .error (.undeclared name.text)

/-- What a path of names refers to, from the global scope on. -/
def resolvePath? (t : SymbolTable) (path : List String) : Option SymbolId :=
  path.foldlM t.member? rootId

/-- The symbols that were announced and never defined. -/
def danglingForwards (t : SymbolTable) : List (SymbolId × Symbol) :=
  t.toList.filter (·.2.isForward)

/-- Enters a symbol that no name leads to. -/
def addDetached (t : SymbolTable) (parent : SymbolId) (name : Ident) (kind : SymbolKind) :
    SymbolId × SymbolTable :=
  (t.size,
    { t with
      symbols := t.symbols.push (Symbol.fresh name.name kind (some parent) name.span)
      defining := (name.span.offset, t.size) :: t.defining })

/-- Makes a symbol known in a scope under a name that the scope does not hold. -/
def addMember (t : SymbolTable) (scope : SymbolId) (name : String) (id : SymbolId) : SymbolTable :=
  t.modify scope fun s => { s with members := s.members ++ [(name, id)] }

/-- Enters a symbol and makes it known in its scope. -/
def add (t : SymbolTable) (parent : SymbolId) (name : Ident) (kind : SymbolKind) :
    SymbolId × SymbolTable :=
  let (id, t) := t.addDetached parent name kind
  (id, t.addMember parent name.name id)

/-- The identifier at a place defines the symbol as well. -/
def bindSpan (t : SymbolTable) (span : Span) (id : SymbolId) : SymbolTable :=
  { t with defining := (span.offset, id) :: t.defining }

/-- Records that a scope held a name already, for the symbol `previous`. -/
def redeclare (t : SymbolTable) (scope : SymbolId) (name : Ident) (previous : SymbolId) :
    SymbolTable :=
  { t with
    redeclarations :=
      t.redeclarations ++ [⟨scope, name.name, name.span, (t.symbol previous).span⟩] }

def setConstant (t : SymbolTable) (id : SymbolId) (slot : ConstSlot) : SymbolTable :=
  t.modify id fun s => { s with constant := slot }

def setAlias (t : SymbolTable) (id : SymbolId) (meaning : Alias) : SymbolTable :=
  t.modify id fun s => { s with aliased := some meaning }

end SymbolTable

end Idl
