import Idl.Syntax.Type

/-!
Definitions and compilation units as they are written. Bodies of interfaces, values, components
and homes hold exports, and modules hold definitions; both are parametric in what a definition is,
and `Definition` ties the knot.
-/

set_option autoImplicit false

namespace Idl

structure Typedef where
  type : TypeSpec
  declarators : List Declarator

structure ConstDecl where
  type : TypeSpec
  name : Ident
  value : ConstExpr

structure ExceptionDecl where
  name : Ident
  members : List (Member TypeSpec)

inductive ForwardKind
  | struct
  | union
  | interface
  | value
  | event
  | component
deriving DecidableEq, Repr

def ForwardKind.text : ForwardKind → String
  | .struct => "struct"
  | .union => "union"
  | .interface => "interface"
  | .value => "valuetype"
  | .event => "eventtype"
  | .component => "component"

/-- A word in front of `interface`, `valuetype` or `eventtype`. -/
inductive Qualifier
  | abstractType
  | localType
  | customType
deriving DecidableEq, Repr

def Qualifier.text : Qualifier → String
  | .abstractType => "abstract"
  | .localType => "local"
  | .customType => "custom"

/-- A name that is defined later. -/
structure ForwardDecl where
  kind : ForwardKind
  name : Ident
  qualifier : Option Qualifier
deriving DecidableEq, Repr

structure Attribute where
  annotations : List AnnotationUse
  readonly : Bool
  type : TypeSpec
  names : List Ident
  getRaises : List ScopedName
  setRaises : List ScopedName
  span : Span

inductive Direction
  | input
  | output
  | both
deriving DecidableEq, Repr

def Direction.text : Direction → String
  | .input => "in"
  | .output => "out"
  | .both => "inout"

structure Param where
  annotations : List AnnotationUse
  direction : Direction
  type : TypeSpec
  name : Ident

/-- An operation; without a result its type is `void`. -/
structure Operation where
  annotations : List AnnotationUse
  oneway : Bool
  result : Option TypeSpec
  name : Ident
  params : List Param
  raises : List ScopedName
  context : List String
  span : Span

structure StateMember where
  isPublic : Bool
  member : Member TypeSpec

inductive InitializerKind
  | factory
  | finder
deriving DecidableEq, Repr

def InitializerKind.text : InitializerKind → String
  | .factory => "factory"
  | .finder => "finder"

structure Initializer where
  kind : InitializerKind
  name : Ident
  params : List Param
  raises : List ScopedName
  span : Span

inductive PortKind
  | provides
  | uses (multiple : Bool)
  | emits
  | publishes
  | consumes
deriving DecidableEq, Repr

def PortKind.text : PortKind → String
  | .provides => "provides"
  | .uses true => "uses multiple"
  | .uses false => "uses"
  | .emits => "emits"
  | .publishes => "publishes"
  | .consumes => "consumes"

structure Port where
  kind : PortKind
  type : ScopedName
  name : Ident
  span : Span
deriving DecidableEq, Repr

/-- What stands in the body of an interface, value, component or home. -/
inductive Export (δ : Type)
  | definition (d : δ)
  | attribute (a : Attribute)
  | operation (o : Operation)
  | stateMember (m : StateMember)
  | initializer (i : Initializer)
  | port (p : Port)

structure ModuleDecl (δ : Type) where
  name : Ident
  definitions : List δ

structure Interface (δ : Type) where
  name : Ident
  qualifier : Option Qualifier
  bases : List ScopedName
  body : List (Export δ)

/-- A value or event type with a body. -/
structure ValueType (δ : Type) where
  name : Ident
  qualifier : Option Qualifier
  truncatable : Bool
  bases : List ScopedName
  supports : List ScopedName
  body : List (Export δ)

structure ValueBox where
  name : Ident
  type : TypeSpec

structure Component (δ : Type) where
  name : Ident
  base : Option ScopedName
  supports : List ScopedName
  body : List (Export δ)

structure Home (δ : Type) where
  name : Ident
  base : Option ScopedName
  supports : List ScopedName
  manages : ScopedName
  primaryKey : Option ScopedName
  body : List (Export δ)

/-- A repository text attached to a name. -/
structure RepositoryDecl where
  target : ScopedName
  text : String
deriving DecidableEq, Repr

structure AnnotationMember where
  type : TypeSpec
  name : Ident
  default : Option ConstExpr

structure AnnotationDecl (δ : Type) where
  name : Ident
  members : List AnnotationMember
  definitions : List δ

inductive DefinitionKind (δ : Type)
  | module (decl : ModuleDecl δ)
  | struct (type : StructType TypeSpec)
  | union (type : UnionType TypeSpec)
  | enum (type : EnumType)
  | bitset (type : BitsetType)
  | bitmask (type : BitmaskType)
  | typedef (decl : Typedef)
  | const (decl : ConstDecl)
  | exception (decl : ExceptionDecl)
  | native (name : Ident)
  | forward (decl : ForwardDecl)
  | interface (decl : Interface δ)
  | value (decl : ValueType δ)
  | event (decl : ValueType δ)
  | valueBox (decl : ValueBox)
  | component (decl : Component δ)
  | home (decl : Home δ)
  | typeId (decl : RepositoryDecl)
  | typePrefix (decl : RepositoryDecl)
  | annotationDecl (decl : AnnotationDecl δ)

/-- The identifier a definition introduces, if it introduces exactly one. -/
def DefinitionKind.name? {δ : Type} : DefinitionKind δ → Option Ident
  | .module d => some d.name
  | .struct t => some t.name
  | .union t => some t.name
  | .enum t => some t.name
  | .bitset t => some t.name
  | .bitmask t => some t.name
  | .const d => some d.name
  | .exception d => some d.name
  | .native name => some name
  | .forward d => some d.name
  | .interface d => some d.name
  | .value d => some d.name
  | .event d => some d.name
  | .valueBox d => some d.name
  | .component d => some d.name
  | .home d => some d.name
  | .annotationDecl d => some d.name
  | .typedef _ | .typeId _ | .typePrefix _ => none

structure Definition where
  annotations : List AnnotationUse
  kind : DefinitionKind Definition
  span : Span

inductive ImportTarget
  | scope (name : ScopedName)
  | file (path : String)
deriving DecidableEq, Repr

structure Import where
  target : ImportTarget
  span : Span
deriving DecidableEq, Repr

/-- A compilation unit. -/
structure Specification where
  imports : List Import
  definitions : List Definition

end Idl
