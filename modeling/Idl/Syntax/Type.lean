import Idl.Syntax.Expr

/-!
Types as they are written, down to the members of constructed types. The constructed types that
hold types are parametric in what a type is, and `TypeSpec` ties the knot.
-/

set_option autoImplicit false

namespace Idl

inductive Primitive
  | short
  | ushort
  | long
  | ulong
  | longLong
  | ulongLong
  | int8
  | uint8
  | int16
  | uint16
  | int32
  | uint32
  | int64
  | uint64
  | float
  | double
  | longDouble
  | char
  | wchar
  | boolean
  | octet
  | any
  | object
  | valueBase
deriving DecidableEq, Repr

namespace Primitive

/-- The width of the kinds that a bitfield may have. -/
def bitWidth? : Primitive → Option Nat
  | .boolean => some 1
  | .octet | .int8 | .uint8 => some 8
  | .short | .ushort | .int16 | .uint16 => some 16
  | .long | .ulong | .int32 | .uint32 => some 32
  | .longLong | .ulongLong | .int64 | .uint64 => some 64
  | _ => none

def text : Primitive → String
  | .short => "short"
  | .ushort => "unsigned short"
  | .long => "long"
  | .ulong => "unsigned long"
  | .longLong => "long long"
  | .ulongLong => "unsigned long long"
  | .int8 => "int8"
  | .uint8 => "uint8"
  | .int16 => "int16"
  | .uint16 => "uint16"
  | .int32 => "int32"
  | .uint32 => "uint32"
  | .int64 => "int64"
  | .uint64 => "uint64"
  | .float => "float"
  | .double => "double"
  | .longDouble => "long double"
  | .char => "char"
  | .wchar => "wchar"
  | .boolean => "boolean"
  | .octet => "octet"
  | .any => "any"
  | .object => "Object"
  | .valueBase => "ValueBase"

end Primitive

/-- What stands between the parentheses of an annotation. -/
inductive AnnotationArgs
  | none
  | single (value : ConstExpr)
  | named (params : List (Ident × ConstExpr))
deriving DecidableEq, Repr

/-- An annotation in front of a declaration. -/
structure AnnotationUse where
  name : ScopedName
  args : AnnotationArgs
  span : Span
deriving DecidableEq, Repr

namespace AnnotationUse

/-- The name without its scope. -/
def simpleName (a : AnnotationUse) : String := a.name.last.name

/-- The one positional argument, or the one named `value`. -/
def value? (a : AnnotationUse) : Option ConstExpr :=
  match a.args with
  | .none => none
  | .single value => some value
  | .named params => (params.find? (fun p => p.1.name == "value")).map (·.2)

end AnnotationUse

/-- The first annotation of a name. -/
def findAnnotation? (annotations : List AnnotationUse) (name : String) : Option AnnotationUse :=
  annotations.find? (fun a => a.simpleName == name)

/-- A reference to a declared type, and the symbol it was resolved to, if it was. -/
structure NamedType where
  name : ScopedName
  target : Option SymbolId
deriving DecidableEq, Repr

/-- A declared name with its array dimensions. -/
structure Declarator where
  name : Ident
  dims : List ConstExpr
deriving DecidableEq, Repr

/-- One member statement; it declares at least one name of the type. -/
structure Member (τ : Type) where
  annotations : List AnnotationUse
  type : τ
  declarators : List Declarator
  span : Span
deriving DecidableEq, Repr

structure StructType (τ : Type) where
  name : Ident
  base : Option NamedType
  members : List (Member τ)
  span : Span
deriving DecidableEq, Repr

/-- What a union switches on. -/
structure SwitchType (τ : Type) where
  annotations : List AnnotationUse
  type : τ
  span : Span
deriving DecidableEq, Repr

inductive CaseLabel
  | value (value : ConstExpr)
  | default (span : Span)
deriving DecidableEq, Repr

structure UnionCase (τ : Type) where
  labels : List CaseLabel
  annotations : List AnnotationUse
  type : τ
  declarator : Declarator
  span : Span
deriving DecidableEq, Repr

/-- The case has the label `default`. -/
def UnionCase.isDefault {τ : Type} (c : UnionCase τ) : Bool :=
  c.labels.any fun
    | .default _ => true
    | .value _ => false

structure UnionType (τ : Type) where
  name : Ident
  discriminant : SwitchType τ
  cases : List (UnionCase τ)
  span : Span
deriving DecidableEq, Repr

/-- A name in an enum or bitmask. -/
structure Enumerator where
  annotations : List AnnotationUse
  name : Ident
deriving DecidableEq, Repr

/-- Enumerators in order; their ordinals start at zero. -/
structure EnumType where
  name : Ident
  enumerators : List Enumerator
  span : Span
deriving DecidableEq, Repr

/-- A field of some bits, with any number of names; one without a name is padding. -/
structure Bitfield where
  annotations : List AnnotationUse
  width : ConstExpr
  type : Option Primitive
  names : List Ident
  span : Span
deriving DecidableEq, Repr

structure BitsetType where
  name : Ident
  base : Option NamedType
  bitfields : List Bitfield
  span : Span
deriving DecidableEq, Repr

structure BitmaskType where
  name : Ident
  values : List Enumerator
  span : Span
deriving DecidableEq, Repr

inductive TypeSpec
  | primitive (kind : Primitive)
  | named (type : NamedType)
  | sequence (element : TypeSpec) (bound : Option ConstExpr)
  | set (element : TypeSpec) (bound : Option ConstExpr)
  | map (key value : TypeSpec) (bound : Option ConstExpr)
  | string (bound : Option ConstExpr)
  | wstring (bound : Option ConstExpr)
  /-- Digits and scale, which the bare form leaves to the constant. -/
  | fixed (args : Option (ConstExpr × ConstExpr))
  | struct (type : StructType TypeSpec)
  | union (type : UnionType TypeSpec)
  | enum (type : EnumType)
  | bitset (type : BitsetType)
  | bitmask (type : BitmaskType)

end Idl
