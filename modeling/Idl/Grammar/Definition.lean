import Idl.Grammar.Export

/-!
Definitions and compilation units. A definition that does not fit the grammar is left out, and
reading goes on behind it.
-/

set_option autoImplicit false

namespace Idl.Grammar

/-- Readers of definitions and exports one level down. -/
structure Inner where
  definition : Parser Definition
  exportItem : Parser (Export Definition)

/-- A struct with its body, or its name alone. -/
def structDefinition (l : Level) : Parser (DefinitionKind Definition) := do
  let start ← expectKeyword .struct
  let name ← ident
  if ← test (·.at? .semi) then return .forward ⟨.struct, name, none⟩
  return .struct (← structBody l (typeSpec l) start name)

/-- A union with its body, or its name alone. -/
def unionDefinition (l : Level) : Parser (DefinitionKind Definition) := do
  let start ← expectKeyword .union
  let name ← ident
  if ← test (·.at? .semi) then return .forward ⟨.union, name, none⟩
  return .union (← unionBody l (typeSpec l) start name)

def typedefDecl (l : Level) : Parser Typedef := do
  discard (expectKeyword .typeDef)
  let type ← typeSpec l
  return ⟨type, ← declarators l⟩

def constDecl (l : Level) : Parser ConstDecl := do
  discard (expectKeyword .const)
  let type ← typeSpec l
  let name ← ident
  discard (expect .equals)
  return ⟨type, name, ← constExpr l⟩

def exceptionDecl (l : Level) : Parser ExceptionDecl := do
  discard (expectKeyword .exception)
  let name ← ident
  discard (expect .leftBrace)
  let fields ← members l (typeSpec l)
  discard (expect .rightBrace)
  return ⟨name, fields⟩

def moduleDecl (inner : Inner) : Parser (ModuleDecl Definition) := do
  discard (expectKeyword .moduleKw)
  let name ← ident
  discard (expect .leftBrace)
  let definitions ← bodyItems inner.definition
  discard (expect .rightBrace)
  return ⟨name, definitions⟩

def exportBody (inner : Inner) : Parser (List (Export Definition)) := do
  discard (expect .leftBrace)
  let items ← bodyItems inner.exportItem
  discard (expect .rightBrace)
  return items

/-- The names after a word, or none where the word is not next. -/
def namesAfter (word : Keyword) : Parser (List ScopedName) := do
  if ← eatKeyword word then scopedNames else return []

/-- The name after a colon, if there is one. -/
def nameAfterColon? : Parser (Option ScopedName) := do
  if ← eat .colon then return some (← scopedName)
  return none

def interface (inner : Inner) (qualifier : Option Qualifier) :
    Parser (DefinitionKind Definition) := do
  discard (expectKeyword .interface)
  let name ← ident
  if ← test (·.at? .semi) then return .forward ⟨.interface, name, qualifier⟩
  let bases ← if ← eat .colon then scopedNames else pure []
  return .interface ⟨name, qualifier, bases, ← exportBody inner⟩

/-- The bases of a value after a colon, and whether they are truncatable. -/
def valueBases : Parser (Bool × List ScopedName) := do
  if ← eat .colon then
    let truncatable ← eatKeyword .truncatable
    return (truncatable, ← scopedNames)
  return (false, [])

/-- What follows the name of a value or event type that has a body. -/
def valueBody (inner : Inner) (name : Ident) (qualifier : Option Qualifier) :
    Parser (ValueType Definition) := do
  let (truncatable, bases) ← valueBases
  let supports ← namesAfter .supports
  return ⟨name, qualifier, truncatable, bases, supports, ← exportBody inner⟩

def opensValueBody (s : Cursor) : Bool :=
  s.at? .colon || s.at? .leftBrace || s.atKeyword .supports

/-- A value type. Without a qualifier it may be a box around another type. -/
def valueType (l : Level) (inner : Inner) (qualifier : Option Qualifier) :
    Parser (DefinitionKind Definition) := do
  discard bump
  let name ← ident
  if ← test (·.at? .semi) then return .forward ⟨.value, name, qualifier⟩
  if ← test opensValueBody then return .value (← valueBody inner name qualifier)
  if qualifier.isSome then expected "`:`, `supports` or `\x7b`"
  return .valueBox ⟨name, ← typeSpec l⟩

def eventType (inner : Inner) (qualifier : Option Qualifier) :
    Parser (DefinitionKind Definition) := do
  discard bump
  let name ← ident
  if ← test (·.at? .semi) then return .forward ⟨.event, name, qualifier⟩
  if ← test opensValueBody then return .event (← valueBody inner name qualifier)
  expected "`:`, `supports` or `\x7b`"

def component (inner : Inner) : Parser (DefinitionKind Definition) := do
  discard (expectKeyword .component)
  let name ← ident
  if ← test (·.at? .semi) then return .forward ⟨.component, name, none⟩
  let base ← nameAfterColon?
  let supports ← namesAfter .supports
  return .component ⟨name, base, supports, ← exportBody inner⟩

def home (inner : Inner) : Parser (DefinitionKind Definition) := do
  discard (expectKeyword .home)
  let name ← ident
  let base ← nameAfterColon?
  let supports ← namesAfter .supports
  discard (expectKeyword .manages)
  let manages ← scopedName
  let primaryKey ← if ← eatKeyword .primaryKey then some <$> scopedName else pure none
  return .home ⟨name, base, supports, manages, primaryKey, ← exportBody inner⟩

/-- A repository text, after its word. -/
def repositoryDecl : Parser RepositoryDecl := do
  discard bump
  let target ← scopedName
  return ⟨target, ← stringLiteral⟩

/-- What may follow a qualifier. -/
def qualified (l : Level) (inner : Inner) (qualifier : Qualifier) :
    Parser (DefinitionKind Definition) := do
  discard bump
  match qualifier, ← kind with
  | .abstractType, .keyword .interface
  | .localType, .keyword .interface => interface inner (some qualifier)
  | .abstractType, .keyword .valueType
  | .customType, .keyword .valueType => valueType l inner (some qualifier)
  | .abstractType, .keyword .eventType
  | .customType, .keyword .eventType => eventType inner (some qualifier)
  | .localType, _ => expected "`interface`"
  | _, _ => expected "`interface`, `valuetype` or `eventtype`"

/-- A member of an annotation, with a default value or without. -/
def annotationMember (l : Level) : Parser AnnotationMember := do
  let type ← typeSpec l
  let name ← ident
  let default ← if ← eatKeyword .default then some <$> constExpr l else pure none
  discard (expect .semi)
  return ⟨type, name, default⟩

def annotationItem (l : Level) (inner : Inner) : Parser (AnnotationMember ⊕ Definition) := do
  if ← test startsInnerDefinition then return .inr (← inner.definition)
  return .inl (← annotationMember l)

def annotationDecl (l : Level) (inner : Inner) : Parser (AnnotationDecl Definition) := do
  discard (expect .atSign)
  discard ident
  let name ← ident
  discard (expect .leftBrace)
  let items ← many atClose (annotationItem l inner)
  discard (expect .rightBrace)
  return ⟨name, items.filterMap Sum.getLeft?, items.filterMap Sum.getRight?⟩

/-- What a definition is, by its first word. -/
def definitionKind (l : Level) (inner : Inner) : Parser (DefinitionKind Definition) := do
  match ← kind with
  | .keyword word =>
    match word with
    | .moduleKw => return .module (← moduleDecl inner)
    | .struct => structDefinition l
    | .union => unionDefinition l
    | .enum => return .enum (← enumType l)
    | .bitset => return .bitset (← bitsetType l)
    | .bitmask => return .bitmask (← bitmaskType l)
    | .typeDef => return .typedef (← typedefDecl l)
    | .native =>
      discard bump
      return .native (← ident)
    | .const => return .const (← constDecl l)
    | .exception => return .exception (← exceptionDecl l)
    | .interface => interface inner none
    | .valueType => valueType l inner none
    | .eventType => eventType inner none
    | .component => component inner
    | .home => home inner
    | .typeId => return .typeId (← repositoryDecl)
    | .typePrefix => return .typePrefix (← repositoryDecl)
    | .abstractKw => qualified l inner .abstractType
    | .localKw => qualified l inner .localType
    | .custom => qualified l inner .customType
    | _ => expected "definition"
  | _ =>
    if ← test atAnnotationDecl then return .annotationDecl (← annotationDecl l inner)
    expected "definition"

def definitionWith (l : Level) (inner : Inner) : Parser Definition := do
  let start ← here
  let uses ← annotations l
  let what ← definitionKind l inner
  discard (expect .semi)
  return ⟨uses, what, ← spanFrom start⟩

mutual

/-- A definition, one level down, which may itself nest `left - 1` levels deep. -/
def definitionAt (limit : Nat) : (left : Nat) → Cursor → Outcome Definition
  | 0, s => tooDeep limit s
  | left + 1, s =>
    definitionWith ⟨limit, left, false⟩ ⟨definitionAt limit left, exportAt limit left⟩ s

/-- An export, one level down, which may itself nest `left - 1` levels deep. -/
def exportAt (limit : Nat) : (left : Nat) → Cursor → Outcome (Export Definition)
  | 0, s => tooDeep limit s
  | left + 1, s =>
    exportWith ⟨limit, left, false⟩
      (definitionKind ⟨limit, left, false⟩ ⟨definitionAt limit left, exportAt limit left⟩) s

end

def importDecl : Parser Import := do
  let start ← expectKeyword .importKw
  let target ← if ← test (·.kind == .literal .string) then ImportTarget.file <$> stringLiteral
    else ImportTarget.scope <$> scopedName
  discard (expect .semi)
  return ⟨target, ← spanFrom start⟩

/-- The imports at the front. One that fails is reported and left out. -/
def imports (s : Cursor) : List Import × Cursor :=
  if s.atKeyword .importKw then
    match importDecl s with
    | .ok i t =>
      if t.rest.length < s.rest.length then
        let (more, u) := imports t
        (i :: more, u)
      else ([i], t)
    | .error e failed =>
      let t := (failed.report e).recover 0
      if t.rest.length < s.rest.length then imports t else ([], t)
  else ([], s)
termination_by s.rest.length

end Idl.Grammar

namespace Idl

/-- A parsed unit, and the errors of what was left out, in the order they were met. -/
structure Parsed where
  specification : Specification
  errors : List SyntaxError

open Grammar in
/-- Parses tokens, nested at most `limit` levels deep. -/
def parseTokens (limit : Nat) (tokens : List Token) : Parsed :=
  let (imports, s) := imports (Cursor.ofTokens tokens)
  let (definitions, s) := itemList (·.atEnd) (definitionAt limit limit) s
  ⟨⟨imports, definitions⟩, s.errors⟩

end Idl
