import Idl.Grammar.Type
import Idl.Syntax.Definition

/-!
Exports: attributes, operations, state, initializers and ports of interfaces, values, components
and homes.
-/

set_option autoImplicit false

namespace Idl.Grammar

def scopedNames : Parser (List ScopedName) := commaList scopedName

/-- The names between parentheses after a word, or none where the word is not next. -/
def raises (word : Keyword) : Parser (List ScopedName) := do
  if ← eatKeyword word then
    discard (expect .leftParen)
    let names ← scopedNames
    discard (expect .rightParen)
    return names
  return []

def direction : Parser Direction := do
  match ← kind with
  | .keyword .inKw => discard bump; return .input
  | .keyword .out => discard bump; return .output
  | .keyword .inOut => discard bump; return .both
  | _ => expected "`in`, `out` or `inout`"

def param (l : Level) : Parser Param := do
  let uses ← annotations l
  let way ← direction
  let type ← typeSpec l
  return ⟨uses, way, type, ← ident⟩

def params (l : Level) : Parser (List Param) := do
  discard (expect .leftParen)
  let ps ← if ← test (·.at? .rightParen) then pure [] else commaList (param l)
  discard (expect .rightParen)
  return ps

def attributeDecl (l : Level) (uses : List AnnotationUse) : Parser Attribute := do
  let start ← here
  let readonly ← eatKeyword .readonly
  discard (expectKeyword .attributeKw)
  let type ← typeSpec l
  let names ← commaList ident
  let getRaises ← raises (if readonly then .raises else .getRaises)
  let setRaises ← if readonly then pure [] else raises .setRaises
  return ⟨uses, readonly, type, names, getRaises, setRaises, ← spanFrom start⟩

def context : Parser (List String) := do
  if ← eatKeyword .context then
    discard (expect .leftParen)
    let texts ← commaList stringLiteral
    discard (expect .rightParen)
    return texts
  return []

def operation (l : Level) (uses : List AnnotationUse) (start : Span) : Parser Operation := do
  let oneway ← eatKeyword .oneway
  let result ← if ← eatKeyword .void then pure none else some <$> typeSpec l
  let name ← ident
  let ps ← params l
  let names ← raises .raises
  let texts ← context
  return ⟨uses, oneway, result, name, ps, names, texts, ← spanFrom start⟩

def stateMember (l : Level) (uses : List AnnotationUse) (start : Span) (isPublic : Bool) :
    Parser StateMember := do
  discard bump
  let type ← typeSpec l
  let names ← declarators l
  return ⟨isPublic, ⟨uses, type, names, ← spanFrom start⟩⟩

def initializer (l : Level) (start : Span) (kind : InitializerKind) : Parser Initializer := do
  discard bump
  let name ← ident
  let ps ← params l
  let names ← raises .raises
  return ⟨kind, name, ps, names, ← spanFrom start⟩

/-- The kind of a port, by its words. -/
def portKind? : Keyword → Option (Parser PortKind)
  | .provides => some (do discard bump; return .provides)
  | .uses => some (do discard bump; return .uses (← eatKeyword .multiple))
  | .emits => some (do discard bump; return .emits)
  | .publishes => some (do discard bump; return .publishes)
  | .consumes => some (do discard bump; return .consumes)
  | _ => none

def port (start : Span) (kind : Parser PortKind) : Parser Port := do
  let k ← kind
  let type ← scopedName
  let name ← ident
  return ⟨k, type, name, ← spanFrom start⟩

/-- The definitions that may also stand where exports or annotation members do. -/
def startsInnerDefinition (s : Cursor) : Bool :=
  match s.kind with
  | .keyword word => word ∈ [Keyword.struct, .union, .enum, .bitset, .bitmask, .typeDef, .native,
      .const, .exception, .typeId, .typePrefix]
  | _ => false

/-- An export that is no definition. -/
def plainExport (l : Level) (uses : List AnnotationUse) (start : Span) :
    Parser (Export Definition) := do
  match ← kind with
  | .keyword .readonly | .keyword .attributeKw => return .attribute (← attributeDecl l uses)
  | .keyword .publicKw => return .stateMember (← stateMember l uses start true)
  | .keyword .privateKw => return .stateMember (← stateMember l uses start false)
  | .keyword .factory => return .initializer (← initializer l start .factory)
  | .keyword .finder => return .initializer (← initializer l start .finder)
  | .keyword word =>
    match portKind? word with
    | some portKind => return .port (← port start portKind)
    | none => return .operation (← operation l uses start)
  | _ => return .operation (← operation l uses start)

/-- An export, where `definition` reads what a definition is after its annotations. -/
def exportWith (l : Level) (definition : Parser (DefinitionKind Definition)) :
    Parser (Export Definition) := do
  let start ← here
  let uses ← annotations l
  if ← test startsInnerDefinition then
    let what ← definition
    discard (expect .semi)
    return .definition ⟨uses, what, ← spanFrom start⟩
  let e ← plainExport l uses start
  discard (expect .semi)
  return e

end Idl.Grammar
