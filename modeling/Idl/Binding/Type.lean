import Idl.Binding.Basic

/-!
Binding inside types: the names of types get their symbols, sizes and labels get their values.
-/

set_option autoImplicit false

namespace Idl.Binding

/-- Sizes are evaluated as signed numbers, so that what is no size can be told. -/
def sizeType : ConstType := .integer .int64

/-- Puts the value of an expression into it. One that fails stays as it is and is reported, unless
it failed by what was reported before. -/
def evaluated (scope : SymbolId) (type : ConstType) (e : ConstExpr) : BindM (ConstExpr × Bool) := do
  match evaluate (← get).table scope type e with
  | .ok constant => return (e.withValue (some constant), true)
  | .error error =>
    if !error.isCascade then report (.eval error.fault) error.span
    return (e, false)

def expr (scope : SymbolId) (type : ConstType) (e : ConstExpr) : BindM ConstExpr :=
  return (← evaluated scope type e).1

def size (scope : SymbolId) (e : ConstExpr) : BindM ConstExpr := expr scope sizeType e

def size? (scope : SymbolId) (e : Option ConstExpr) : BindM (Option ConstExpr) :=
  e.mapM (size scope)

/-- The type of an annotation's argument, where the layout depends on it. -/
def annotationType? (name : String) : Option ConstType :=
  if name ∈ ["bit_bound", "position", "id"] then some sizeType
  else if name ∈ ["key", "optional", "must_understand", "external"] then some .boolean
  else none

/-- Evaluates the first parameter named `value`. -/
def valueParam (scope : SymbolId) (type : ConstType) :
    List (Ident × ConstExpr) → BindM (List (Ident × ConstExpr))
  | [] => return []
  | (name, e) :: rest => do
    if name.name = "value" then return (name, ← expr scope type e) :: rest
    else return (name, e) :: (← valueParam scope type rest)

def annotationUse (scope : SymbolId) (a : AnnotationUse) : BindM AnnotationUse := do
  match annotationType? a.simpleName with
  | none => return a
  | some type =>
    match a.args with
    | .none => return a
    | .single e => return { a with args := .single (← expr scope type e) }
    | .named params => return { a with args := .named (← valueParam scope type params) }

def annotations (scope : SymbolId) (as : List AnnotationUse) : BindM (List AnnotationUse) :=
  as.mapM (annotationUse scope)

def declarator (scope : SymbolId) (d : Declarator) : BindM Declarator :=
  return { d with dims := ← d.dims.mapM (size scope) }

/-- Binds a type name. One that refers to no type stays as it is and is reported. -/
def namedType (scope : SymbolId) (type : NamedType) : BindM NamedType := do
  let table := (← get).table
  match table.resolve scope type.name with
  | .ok id =>
    let symbol := table.symbol id
    if symbol.kind.isType then return { type with target := some id }
    report (.notType type.name.text symbol.kind symbol.span) type.name.span
    return type
  | .error error =>
    report (.lookup error) type.name.span
    return type

/-- Binds the base of a struct or bitset, which has to be of the same kind. -/
def base (scope : SymbolId) (owner : Ident) (kind : SymbolKind) (type : NamedType) :
    BindM NamedType := do
  let type ← namedType scope type
  match type.target with
  | none => return type
  | some id =>
    let found ← table? (·.kind id)
    if found = kind then return type
    report (.badBase kind owner.name found type.name.text) type.name.span
    return { type with target := none }

def enumerator (scope : SymbolId) (e : Enumerator) : BindM Enumerator :=
  return { e with annotations := ← annotations scope e.annotations }

def enumType (scope : SymbolId) (t : EnumType) : BindM EnumType :=
  return { t with enumerators := ← t.enumerators.mapM (enumerator scope) }

def bitmaskType (scope : SymbolId) (t : BitmaskType) : BindM BitmaskType :=
  return { t with values := ← t.values.mapM (enumerator scope) }

def bitfield (scope : SymbolId) (f : Bitfield) : BindM Bitfield := do
  let as ← annotations scope f.annotations
  return { f with annotations := as, width := ← size scope f.width }

def bitsetType (scope : SymbolId) (t : BitsetType) : BindM BitsetType := do
  let b ← t.base.mapM (base scope t.name .bitset)
  return { t with base := b, bitfields := ← t.bitfields.mapM (bitfield scope) }

/-- Evaluates a label of a union whose discriminant admits labels. -/
def caseLabel (scope : SymbolId) (type : Option ConstType) (label : CaseLabel) : BindM CaseLabel :=
  match type, label with
  | some type, .value e => return .value (← expr scope type e)
  | _, _ => return label

mutual

def typeSpec (scope : SymbolId) : TypeSpec → BindM TypeSpec
  | .primitive k => return .primitive k
  | .named type => return .named (← namedType scope type)
  | .sequence element bound => do
    let element ← typeSpec scope element
    return .sequence element (← size? scope bound)
  | .set element bound => do
    let element ← typeSpec scope element
    return .set element (← size? scope bound)
  | .map key value bound => do
    let key ← typeSpec scope key
    let value ← typeSpec scope value
    return .map key value (← size? scope bound)
  | .string bound => return .string (← size? scope bound)
  | .wstring bound => return .wstring (← size? scope bound)
  | .fixed none => return .fixed none
  | .fixed (some (digits, scale)) => do
    let digits ← size scope digits
    return .fixed (some (digits, ← size scope scale))
  | .struct t => return .struct (← structType scope t)
  | .union t => return .union (← unionType scope t)
  | .enum t => return .enum (← enumType scope t)
  | .bitset t => return .bitset (← bitsetType scope t)
  | .bitmask t => return .bitmask (← bitmaskType scope t)

def structType (scope : SymbolId) : StructType TypeSpec → BindM (StructType TypeSpec)
  | ⟨name, b, fields, span⟩ => do
    let b ← b.mapM (base scope name .struct)
    let id ← scopeOf name scope
    return ⟨name, b, ← members id fields, span⟩

def members (scope : SymbolId) : List (Member TypeSpec) → BindM (List (Member TypeSpec))
  | [] => return []
  | ⟨as, type, ds, span⟩ :: rest => do
    let as ← annotations scope as
    let type ← typeSpec scope type
    let ds ← ds.mapM (declarator scope)
    return ⟨as, type, ds, span⟩ :: (← members scope rest)

def unionType (scope : SymbolId) : UnionType TypeSpec → BindM (UnionType TypeSpec)
  | ⟨name, ⟨as, type, switchSpan⟩, cases, span⟩ => do
    let id ← scopeOf name scope
    let as ← annotations id as
    let type ← typeSpec id type
    let labels ← table? (·.discriminantType? type)
    return ⟨name, ⟨as, type, switchSpan⟩, ← unionCases id labels cases, span⟩

def unionCases (scope : SymbolId) (labelType : Option ConstType) :
    List (UnionCase TypeSpec) → BindM (List (UnionCase TypeSpec))
  | [] => return []
  | ⟨labels, as, type, d, span⟩ :: rest => do
    let labels ← labels.mapM (caseLabel scope labelType)
    let as ← annotations scope as
    let type ← typeSpec scope type
    let d ← declarator scope d
    return ⟨labels, as, type, d, span⟩ :: (← unionCases scope labelType rest)

end

end Idl.Binding
