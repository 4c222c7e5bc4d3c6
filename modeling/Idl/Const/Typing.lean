import Idl.Scope.Table

/-!
Which constants a declared type admits.
-/

set_option autoImplicit false

namespace Idl

def Primitive.constType? : Primitive → Option ConstType
  | .int8 => some (.integer .int8)
  | .uint8 | .octet => some (.integer .uint8)
  | .short | .int16 => some (.integer .int16)
  | .ushort | .uint16 => some (.integer .uint16)
  | .long | .int32 => some (.integer .int32)
  | .ulong | .uint32 => some (.integer .uint32)
  | .longLong | .int64 => some (.integer .int64)
  | .ulongLong | .uint64 => some (.integer .uint64)
  | .float | .double | .longDouble => some .float
  | .char => some .char
  | .wchar => some .wchar
  | .boolean => some .boolean
  | .any | .object | .valueBase => none

/-- The type may discriminate a union. -/
def ConstType.isDiscrete : ConstType → Bool
  | .integer _ | .char | .wchar | .boolean | .enum _ => true
  | .float | .fixed | .string | .wstring => false

namespace SymbolTable

/-- Typedefs followed to find out what a type is; a longer chain is taken to go round. -/
def maxAliasDepth : Nat := 64

/-- What constants of a type are evaluated as, after at most `fuel - 1` typedefs. -/
def constTypeWithin? (t : SymbolTable) : (fuel : Nat) → TypeSpec → Option ConstType
  | 0, _ => none
  | _ + 1, .primitive k => k.constType?
  | _ + 1, .string _ => some .string
  | _ + 1, .wstring _ => some .wstring
  | _ + 1, .fixed _ => some .fixed
  | _ + 1, .enum e => (t.definedAt? e.name.span).map .enum
  | fuel + 1, .named type =>
    match type.target with
    | none => none
    | some id =>
      match t.kind id with
      | .enum => some (.enum id)
      | .typedef =>
        match (t.symbol id).aliased with
        | some a => if a.isArray then none else t.constTypeWithin? fuel a.type
        | none => none
      | _ => none
  | _ + 1, _ => none

/-- What constants of a type are evaluated as, if the type admits constants. -/
def constType? (t : SymbolTable) (type : TypeSpec) : Option ConstType :=
  t.constTypeWithin? maxAliasDepth type

/-- What the labels of a union are evaluated as, if its discriminant admits labels. -/
def discriminantType? (t : SymbolTable) (type : TypeSpec) : Option ConstType :=
  (t.constType? type).filter (·.isDiscrete)

/-- The type of a constant, in messages. -/
def constTypeText (t : SymbolTable) : ConstType → String
  | .enum id => "enum " ++ t.qualifiedName id
  | type => type.text

end SymbolTable

end Idl
