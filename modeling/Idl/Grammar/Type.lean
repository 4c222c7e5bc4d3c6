import Idl.Grammar.Expr
import Idl.Syntax.Type

/-!
Annotations, declarators and types.
-/

set_option autoImplicit false

namespace Idl.Grammar

/-! Annotations. -/

/-- The declaration of an annotation begins here; nowhere else does `annotation` act as a
keyword. -/
def atAnnotationDecl (s : Cursor) : Bool :=
  s.at? .atSign && (s.nth 1).kind == .ident && (s.nth 1).lexeme == "annotation" &&
    (s.nth 2).kind == .ident && (s.nth 3).kind == .punct .leftBrace

/-- The name of an annotation, which may be spelled as a keyword. -/
def annotationName : Parser ScopedName := do
  match ← kind with
  | .keyword _ =>
    let t ← bump
    return ⟨false, ⟨t.lexeme, t.span⟩, [], t.span⟩
  | _ => scopedName

def annotationArgs (l : Level) : Parser AnnotationArgs := do
  if ← test (·.at? .rightParen) then return .none
  if ← test (fun s => s.kind == .ident && (s.nth 1).kind == .punct .equals) then
    let params ← commaList do
      let name ← ident
      discard (expect .equals)
      return (name, ← constExpr l)
    return .named params
  return .single (← constExpr l)

def annotationUse (l : Level) : Parser AnnotationUse := do
  let start ← expect .atSign
  let name ← annotationName
  if ← eat .leftParen then
    let args ← annotationArgs { l with inTemplate := false }
    discard (expect .rightParen)
    return ⟨name, args, ← spanFrom start⟩
  return ⟨name, .none, ← spanFrom start⟩

/-- The annotations in front of a declaration. -/
def annotations (l : Level) : Parser (List AnnotationUse) :=
  many (fun s => !s.at? .atSign || atAnnotationDecl s) (annotationUse l)

/-! Declarators and the types that hold no others. -/

def declarator (l : Level) : Parser Declarator := do
  let name ← ident
  let dims ← many (fun s => !s.at? .leftBracket) do
    discard (expect .leftBracket)
    let dim ← constExpr l
    discard (expect .rightBracket)
    return dim
  return ⟨name, dims⟩

def declarators (l : Level) : Parser (List Declarator) := commaList (declarator l)

/-- The base types of one word, save `long`, which may go on. -/
def wordType? : Keyword → Option Primitive
  | .short => some .short
  | .int8 => some .int8
  | .uint8 => some .uint8
  | .int16 => some .int16
  | .uint16 => some .uint16
  | .int32 => some .int32
  | .uint32 => some .uint32
  | .int64 => some .int64
  | .uint64 => some .uint64
  | .float => some .float
  | .double => some .double
  | .char => some .char
  | .wchar => some .wchar
  | .boolean => some .boolean
  | .octet => some .octet
  | .any => some .any
  | .object => some .object
  | .valueBase => some .valueBase
  | _ => none

/-- A base type, if one begins here. -/
def primitive? : Parser (Option Primitive) := do
  match ← kind with
  | .keyword .unsigned =>
    discard bump
    if ← eatKeyword .short then return some .ushort
    if ← eatKeyword .long then
      return some (if ← eatKeyword .long then .ulongLong else .ulong)
    expected "`short` or `long` after `unsigned`"
  | .keyword .long =>
    discard bump
    if ← eatKeyword .long then return some .longLong
    return some (if ← eatKeyword .double then .longDouble else .long)
  | .keyword word =>
    match wordType? word with
    | some primitive =>
      discard bump
      return some primitive
    | none => return none
  | _ => return none

/-- Template arguments between angles. -/
def angled {α : Type} (l : Level) (args : Level → Parser α) : Parser α := do
  discard (expect .less)
  let value ← args { l with inTemplate := true }
  discard (expect .greater)
  return value

/-- The base after a colon, if there is one. -/
def base? : Parser (Option NamedType) := do
  if ← eat .colon then return some ⟨← scopedName, none⟩
  return none

/-- Annotated names with commas between them, in braces. -/
def enumerators (l : Level) : Parser (List Enumerator) := do
  discard (expect .leftBrace)
  let values ← commaList do
    let uses ← annotations l
    return (⟨uses, ← ident⟩ : Enumerator)
  discard (expect .rightBrace)
  return values

def enumType (l : Level) : Parser EnumType := do
  let start ← expectKeyword .enum
  let name ← ident
  let values ← enumerators l
  return ⟨name, values, ← spanFrom start⟩

def bitmaskType (l : Level) : Parser BitmaskType := do
  let start ← expectKeyword .bitmask
  let name ← ident
  let values ← enumerators l
  return ⟨name, values, ← spanFrom start⟩

/-- Width and, after a comma, a type of known width. -/
def bitfieldArgs (l : Level) : Parser (ConstExpr × Option Primitive) := do
  let width ← constExpr l
  if ← eat .comma then
    match ← primitive? with
    | some primitive =>
      if primitive.bitWidth?.isSome then return (width, some primitive)
      expected "integer, `boolean` or `octet` type"
    | none => expected "integer, `boolean` or `octet` type"
  else return (width, none)

def bitfield (l : Level) : Parser Bitfield := do
  let start ← here
  let uses ← annotations l
  discard (expectKeyword .bitfield)
  let (width, type) ← angled l bitfieldArgs
  let names ← if ← test (·.at? .semi) then pure [] else commaList ident
  discard (expect .semi)
  return ⟨uses, width, type, names, ← spanFrom start⟩

def bitsetType (l : Level) : Parser BitsetType := do
  let start ← expectKeyword .bitset
  let name ← ident
  let base ← base?
  discard (expect .leftBrace)
  let fields ← many atClose (bitfield l)
  discard (expect .rightBrace)
  return ⟨name, base, fields, ← spanFrom start⟩

/-! Types that hold others, over a reader of types one level down. -/

def member (l : Level) (type : Parser TypeSpec) : Parser (Member TypeSpec) := do
  let start ← here
  let uses ← annotations l
  let ty ← type
  let names ← declarators l
  discard (expect .semi)
  return ⟨uses, ty, names, ← spanFrom start⟩

def members (l : Level) (type : Parser TypeSpec) : Parser (List (Member TypeSpec)) :=
  many atClose (member l type)

/-- What follows the name of a struct. -/
def structBody (l : Level) (type : Parser TypeSpec) (start : Span) (name : Ident) :
    Parser (StructType TypeSpec) := do
  let base ← base?
  discard (expect .leftBrace)
  let fields ← members l type
  discard (expect .rightBrace)
  return ⟨name, base, fields, ← spanFrom start⟩

/-- A label and its colon. -/
def caseLabel (l : Level) : Parser CaseLabel := do
  if ← eatKeyword .caseKw then
    let value ← constExpr l
    discard (expect .colon)
    return .value value
  let span ← expectKeyword .default
  discard (expect .colon)
  return .default span

def unionCase (l : Level) (type : Parser TypeSpec) : Parser (UnionCase TypeSpec) := do
  let start ← here
  let labels ← many (fun s => !(s.atKeyword .caseKw || s.atKeyword .default)) (caseLabel l)
  if labels.isEmpty then expected "`case` or `default`"
  let uses ← annotations l
  let ty ← type
  let name ← declarator l
  discard (expect .semi)
  return ⟨labels, uses, ty, name, ← spanFrom start⟩

/-- What follows the name of a union. -/
def unionBody (l : Level) (type : Parser TypeSpec) (start : Span) (name : Ident) :
    Parser (UnionType TypeSpec) := do
  discard (expectKeyword .switch)
  let switchStart ← expect .leftParen
  let uses ← annotations l
  let ty ← type
  discard (expect .rightParen)
  let discriminant : SwitchType TypeSpec := ⟨uses, ty, ← spanFrom switchStart⟩
  discard (expect .leftBrace)
  let cases ← many atClose (unionCase l type)
  if cases.isEmpty then expected "`case` or `default`"
  discard (expect .rightBrace)
  return ⟨name, discriminant, cases, ← spanFrom start⟩

/-- The bound after a comma, if there is one. -/
def bound? (l : Level) : Parser (Option ConstExpr) := do
  if ← eat .comma then return some (← constExpr l)
  return none

/-- The bound of a string type in angles, if there is one. -/
def stringBound? (l : Level) : Parser (Option ConstExpr) := do
  if ← test (·.at? .less) then return some (← angled l constExpr)
  return none

/-- A type that is no base type, by its keyword. `type` reads the types in it, given whether they
are template arguments. -/
def keywordType (l : Level) (type : Bool → Parser TypeSpec) : Keyword → Parser TypeSpec
  | .sequence => do
    discard bump
    angled l fun inner => do
      let element ← type true
      return .sequence element (← bound? inner)
  | .set => do
    discard bump
    angled l fun inner => do
      let element ← type true
      return .set element (← bound? inner)
  | .map => do
    discard bump
    angled l fun inner => do
      let key ← type true
      discard (expect .comma)
      let value ← type true
      return .map key value (← bound? inner)
  | .string => do
    discard bump
    return .string (← stringBound? l)
  | .wstring => do
    discard bump
    return .wstring (← stringBound? l)
  | .fixed => do
    discard bump
    if ← test (·.at? .less) then
      angled l fun inner => do
        let digits ← constExpr inner
        discard (expect .comma)
        let scale ← constExpr inner
        return .fixed (some (digits, scale))
    else return .fixed none
  | .struct => do
    let t ← bump
    let name ← ident
    return .struct (← structBody l (type l.inTemplate) t.span name)
  | .union => do
    let t ← bump
    let name ← ident
    return .union (← unionBody l (type l.inTemplate) t.span name)
  | .enum => return .enum (← enumType l)
  | .bitset => return .bitset (← bitsetType l)
  | .bitmask => return .bitmask (← bitmaskType l)
  | _ => expected "type"

def typeWith (l : Level) (type : Bool → Parser TypeSpec) : Parser TypeSpec := do
  if let some primitive ← primitive? then return .primitive primitive
  match ← kind with
  | .ident | .punct .colonColon => return .named ⟨← scopedName, none⟩
  | .keyword word => keywordType l type word
  | _ => expected "type"

/-- A type, one level down, which may itself nest `left - 1` levels deep. -/
def typeSpecAt (limit : Nat) : (left : Nat) → (inTemplate : Bool) → Cursor → Outcome TypeSpec
  | 0, _, s => tooDeep limit s
  | left + 1, inTemplate, s =>
    typeWith ⟨limit, left, inTemplate⟩ (fun inner => typeSpecAt limit left inner) s

def typeSpec (l : Level) : Parser TypeSpec := typeSpecAt l.limit l.left l.inTemplate

end Idl.Grammar
