import Idl.Text.Blank

/-!
Cutting text into lines and paths.
-/

set_option autoImplicit false

namespace Idl.Text

/-- Puts a character in front of the first part. -/
def consFirst (c : Char) : List (List Char) → List (List Char)
  | [] => [[c]]
  | part :: parts => (c :: part) :: parts

/-- The lines, each with the newline that ends it; the last one may lack it. -/
def brokenLines : List Char → List (List Char)
  | [] => []
  | c :: cs => if c = '\n' then [c] :: brokenLines cs else consFirst c (brokenLines cs)

/-- A line without the newline that ends it, and without a carriage return in front of that. -/
def bareLine (line : List Char) : List Char :=
  if line.getLast? = some '\n' then
    let line := line.dropLast
    if line.getLast? = some '\r' then line.dropLast else line
  else line

/-- The lines without their ends. -/
def bareLines (cs : List Char) : List (List Char) := (brokenLines cs).map bareLine

/-- The parts between slashes. -/
def splitSlashes : List Char → List (List Char)
  | [] => [[]]
  | c :: cs => if c = '/' then [] :: splitSlashes cs else consFirst c (splitSlashes cs)

/-- The parts between double colons. -/
def splitColons : List Char → List (List Char)
  | [] => [[]]
  | ':' :: ':' :: cs => [] :: splitColons cs
  | c :: cs => consFirst c (splitColons cs)

/-- Without the double colons at the front. -/
def dropColons : List Char → List Char
  | ':' :: ':' :: cs => dropColons cs
  | cs => cs

/-- The names of a path, whatever double colons lead it. -/
def pathNames (path : String) : List String :=
  (splitColons (dropColons path.toList)).map String.ofList

theorem flatten_consFirst (c : Char) (parts : List (List Char)) :
    (consFirst c parts).flatten = c :: parts.flatten := by
  cases parts <;> simp [consFirst]

/-- Nothing of a text is lost in its lines. -/
theorem flatten_brokenLines (cs : List Char) : (brokenLines cs).flatten = cs := by
  induction cs with
  | nil => rfl
  | cons c cs ih =>
    simp only [brokenLines]
    split
    · simp [ih]
    · simp [flatten_consFirst, ih]

end Idl.Text
