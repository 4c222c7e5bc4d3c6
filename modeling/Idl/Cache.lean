import Idl.Document

/-!
A cache of documents. Keys may collide: a document is only given out for the very text and options
that it was made from, and the first document of a key keeps its place.
-/

set_option autoImplicit false

namespace Idl

/-- A document that is handed around. Two of them are one if their numbers are equal. -/
structure SharedDocument where
  number : Nat
  document : Document

/-- Documents by the keys of their texts and options. -/
structure SchemaCache (κ : Type) where
  entries : List (κ × SharedDocument)

namespace SchemaCache

variable {κ : Type} [BEq κ]

def empty : SchemaCache κ := ⟨[]⟩

def size (c : SchemaCache κ) : Nat := c.entries.length

def isEmpty (c : SchemaCache κ) : Bool := c.entries.isEmpty

/-- The document was made from this text and these options. -/
def madeFrom (d : SharedDocument) (options : ParseOptions) (text : String) : Bool :=
  d.document.source == text && d.document.options == options

/-- The document of a text, if its key holds it. -/
def get? (c : SchemaCache κ) (key : ParseOptions → String → κ) (options : ParseOptions)
    (text : String) : Option SharedDocument :=
  (c.entries.lookup (key options text)).filter (madeFrom · options text)

/-- Stores a document unless its key is taken, and gives the document to use for its text. -/
def insert (c : SchemaCache κ) (key : ParseOptions → String → κ) (d : SharedDocument) :
    SharedDocument × SchemaCache κ :=
  let options := d.document.options
  let text := d.document.source
  match c.entries.lookup (key options text) with
  | none => (d, ⟨(key options text, d) :: c.entries⟩)
  | some stored => (if madeFrom stored options text then stored else d, c)

/-- The document of a text, made and stored if the cache has none. -/
def getOrInsert (c : SchemaCache κ) (key : ParseOptions → String → κ) (options : ParseOptions)
    (text : String) (make : Unit → SharedDocument) : SharedDocument × SchemaCache κ :=
  match c.get? key options text with
  | some d => (d, c)
  | none => c.insert key (make ())

/-- Without any document. -/
def clear (_ : SchemaCache κ) : SchemaCache κ := empty

end SchemaCache

/-- The key that no two inputs share. -/
def contentKey (options : ParseOptions) (text : String) : String × Nat × Bool :=
  (text, options.maxNesting, options.strictForward)

end Idl
