import Idl.Analysis
import Idl.Bundle
import Idl.File
import Idl.Parse

/-!
Documents: a text with all that is known of it. Every text has one; whether it may be relied on,
its diagnostics say.
-/

set_option autoImplicit false

namespace Idl

structure ParseOptions where
  /-- The most levels of nesting. -/
  maxNesting : Nat := defaultNesting
  /-- It is an error to announce a type and never define it. -/
  strictForward : Bool := false
deriving DecidableEq, Repr

structure Document where
  source : String
  options : ParseOptions
  specification : Specification
  symbols : SymbolTable
  model : TypeModel
  /-- Diagnostics of all phases, in document order. -/
  diagnostics : Diagnostics

/-- Why there is no document, or none to rely on. -/
inductive DocumentError
  | invalid (count : Nat) (first : Diagnostic)
  | bundle (error : BundleError)
  | typeNotFound (schema : String)
  | unreadable (path : String) (fault : FileFault)
deriving DecidableEq, Repr

def DocumentError.message : DocumentError → String
  | .invalid count first =>
    "IDL document has " ++ toString count ++ " error(s), first: " ++ first.text
  | .bundle error => error.message
  | .typeNotFound schema => "type '" ++ schema ++ "' is not defined by its schema"
  | .unreadable path fault => "failed to read " ++ path ++ ": " ++ fault.message

namespace Document

/-- The document of a text. -/
def ofText (options : ParseOptions) (text : String) : Document :=
  let parsed := parseText options.maxNesting text
  let analysis := analyze options.strictForward parsed.specification
  { source := text
    options
    specification := analysis.specification
    symbols := analysis.symbols
    model := analysis.model
    diagnostics := Diagnostics.sorted (parsed.diagnostics ++ analysis.diagnostics) }

/-- The document of a file. -/
def ofFile (files : Files) (options : ParseOptions) (path : String) :
    Except DocumentError Document :=
  match files path with
  | .ok text => .ok (ofText options text)
  | .error fault => .error (.unreadable path fault)

def hasErrors (d : Document) : Bool := d.diagnostics.hasErrors

/-- The first error with the number of all, if there are any. -/
def error? (d : Document) : Option DocumentError :=
  d.diagnostics.errors.head?.map (.invalid d.diagnostics.errorCount)

/-- The document, if it is free of errors. -/
def checked (d : Document) : Except DocumentError Document :=
  match d.error? with
  | some error => .error error
  | none => .ok d

end Document

/-- The first entry of a qualified name, whatever double colons lead it. -/
def TypeModel.named? (m : TypeModel) (name : String) : Option Entry :=
  let name := String.ofList (Text.dropColons name.toList)
  m.entries.find? (·.name == name)

/-- The entry of a type whose name has its parts between slashes or double colons. -/
def Document.typeEntry? (d : Document) (name : String) : Option Entry :=
  let parts := (Text.splitSlashes name.toList).filter (!·.isEmpty)
  d.model.named? ("::".intercalate (parts.map String.ofList))

/-- What a path of names with double colons between them refers to. -/
def SymbolTable.resolveText? (t : SymbolTable) (path : String) : Option SymbolId :=
  t.resolvePath? (Text.pathNames path)

/-- The document of a text that has to be free of errors. -/
def resolveText (text : String) : Except DocumentError Document := (Document.ofText {} text).checked

/-- The unit that a schema text holds, which may be a bundle. -/
def schemaUnit (schema : String) (text : String) : Except DocumentError String :=
  if Bundle.isBundle text then
    match Bundle.ofText schema text with
    | .ok _ => .ok (Bundle.normalized text)
    | .error error => .error (.bundle error)
  else .ok text

/-- The document of a schema text, which has to be free of errors and define the schema. -/
def resolveSchema (options : ParseOptions) (schema text : String) :
    Except DocumentError (Document × Entry) := do
  let unit ← schemaUnit schema text
  let d ← (Document.ofText options unit).checked
  match d.typeEntry? schema with
  | some entry => return (d, entry)
  | none => throw (.typeNotFound schema)

end Idl
