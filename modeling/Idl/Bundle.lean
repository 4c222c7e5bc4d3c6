import Idl.Text.Bytes
import Idl.Text.Split

/-!
Bundles: several units in one text. Lines of `=` stand between the sections, and the first line of
a section names its path. A bundle in which these lines are blanked is one unit with the places of
everything else unchanged.
-/

set_option autoImplicit false

namespace Idl

/-- Why a text is no bundle. -/
inductive BundleError
  | noSections (schema : String)
  | missingHeader (line : Nat) (found : String)
  | emptyPath (line : Nat)
deriving DecidableEq, Repr

def BundleError.message : BundleError → String
  | .noSections schema => "no IDL sections found for schema '" ++ schema ++ "'"
  | .missingHeader line found =>
    "line " ++ toString line ++ ": missing `IDL:` header, found `" ++ found ++ "`"
  | .emptyPath line => "line " ++ toString line ++ ": empty IDL path in section header"

/-- A section of a bundle. -/
structure BundleSection where
  path : List String
  /-- The line of the header, counted from one. -/
  headerLine : Nat
  /-- The lines after the header, up to the next separator. -/
  body : String
deriving DecidableEq, Repr

abbrev Bundle : Type := List BundleSection

namespace Bundle

/-- Nothing but equals signs, and at least one. -/
def isSeparator (line : List Char) : Bool :=
  let line := Text.trim line
  !line.isEmpty && line.all (· == '=')

def isBlankLine (line : List Char) : Bool := (Text.trim line).isEmpty

/-- The word in front of a path. -/
def headerMark : List Char := ['I', 'D', 'L', ':']

/-- The parts of a path between slashes, without blanks around them and without empty ones. -/
def pathParts (path : List Char) : List String :=
  (((Text.splitSlashes path).map Text.trim).filter (!·.isEmpty)).map String.ofList

/-- The text has a separator. -/
def isBundle (text : String) : Bool := (Text.bareLines text.toList).any isSeparator

/-- Cuts numbered lines at the separators. -/
def chunks : List (List Char × Nat) → List (List (List Char × Nat))
  | [] => [[]]
  | line :: lines =>
    if isSeparator line.1 then [] :: chunks lines
    else
      match chunks lines with
      | [] => [[line]]
      | chunk :: more => (line :: chunk) :: more

/-- The section that numbered lines make up, the blank ones at the front left out. -/
def sectionOf? (lines : List (List Char × Nat)) : Except BundleError (Option BundleSection) :=
  match lines.dropWhile (fun line => isBlankLine line.1) with
  | [] => .ok none
  | (header, line) :: rest =>
    let header := Text.trim header
    if !headerMark.isPrefixOf header then .error (.missingHeader line (String.ofList header))
    else
      let path := Text.trim (header.drop headerMark.length)
      if path.isEmpty then .error (.emptyPath line)
      else
        let body := "\n".intercalate (rest.map fun line => String.ofList line.1)
        .ok (some ⟨pathParts path, line, body⟩)

/-- The sections of a text that is to define a schema. Chunks without text are no sections. -/
def ofText (schema : String) (text : String) : Except BundleError Bundle := do
  let sections ← (chunks ((Text.bareLines text.toList).zipIdx 1)).mapM sectionOf?
  match sections.filterMap id with
  | [] => throw (.noSections schema)
  | sections => return sections

/-- The path of the section for a schema: the one of its path or, failing that, the first. -/
def mainPath? (b : Bundle) (schema : String) : Option (List String) :=
  let path := pathParts schema.toList
  let exact := if path.isEmpty then none else b.find? (·.path == path)
  (exact <|> b.head?).map (·.path)

/-- The characters that may end a line. -/
def isLineEnd (c : Char) : Bool := c == '\r' || c == '\n'

/-- As many spaces as a text has bytes. -/
def spaces (cs : List Char) : List Char := List.replicate (Text.byteCount cs) ' '

/-- Blanks separators and headers. `headerNext` says that the next line with text is the first of
its section. -/
def normalizeLines (headerNext : Bool) : List (List Char) → List Char
  | [] => []
  | line :: lines =>
    let ending := (line.reverse.takeWhile isLineEnd).reverse
    let content := line.take (line.length - ending.length)
    if isSeparator content then spaces content ++ ending ++ normalizeLines true lines
    else if headerNext && !isBlankLine content then
      let isHeader := headerMark.isPrefixOf (Text.trim content)
      (if isHeader then spaces content else content) ++ ending ++ normalizeLines false lines
    else content ++ ending ++ normalizeLines headerNext lines

/-- The text with separators and headers blanked. -/
def normalized (text : String) : String :=
  String.ofList (normalizeLines true (Text.brokenLines text.toList))

end Bundle

end Idl
