import Idl.Syntax.Type

/-!
Source text of expressions and types. A member or label stands on a line of its own, indented by
four spaces for each level.
-/

set_option autoImplicit false

namespace Idl

/-- The quoted source literal of a text. -/
def sourceLiteral (quote : Char) (text : List Char) : String :=
  String.ofList (Text.quoteLiteral quote text)

/-- A number in the digits of a base. -/
def digitsText (base n : Nat) : String := String.ofList (Nat.toDigits base n)

def Literal.text : Literal → String
  | .integer v .decimal => digitsText 10 v
  | .integer v .octal => "0" ++ digitsText 8 v
  | .integer v .hex => "0x" ++ digitsText 16 v
  | .float x => x.text
  | .fixed x => x.plainText ++ "d"
  | .char c => sourceLiteral '\'' [c]
  | .wchar c => "L" ++ sourceLiteral '\'' [c]
  | .string s => sourceLiteral '"' s.toList
  | .wstring s => "L" ++ sourceLiteral '"' s.toList
  | .boolean true => "TRUE"
  | .boolean false => "FALSE"

/-- Binary operators stand in parentheses. -/
def ConstExpr.text : ConstExpr → String
  | .binary op left right _ _ => "(" ++ left.text ++ " " ++ op.text ++ " " ++ right.text ++ ")"
  | .unary op operand _ _ => op.text ++ operand.text
  | .literal l _ _ => l.text
  | .name n _ _ => n.text

namespace Printer

/-- Spaces in front of a line. -/
def pad (indent : Nat) : String := "".pushn ' ' indent

def commaSeparated (parts : List String) : String := ", ".intercalate parts

def names (ns : List Ident) : String := commaSeparated (ns.map (·.name))

def scopedNames (ns : List ScopedName) : String := commaSeparated (ns.map ScopedName.text)

/-- The names after `lead`, or nothing if there are none. -/
def namesAfter (lead : String) (ns : List ScopedName) : String :=
  if ns.isEmpty then "" else lead ++ scopedNames ns

def raises (word : String) (ns : List ScopedName) : String :=
  if ns.isEmpty then "" else " " ++ word ++ "(" ++ scopedNames ns ++ ")"

def annotationArgs : AnnotationArgs → String
  | .none => ""
  | .single value => "(" ++ value.text ++ ")"
  | .named params =>
    "(" ++ commaSeparated (params.map fun p => p.1.name ++ " = " ++ p.2.text) ++ ")"

def annotationUse (a : AnnotationUse) : String := "@" ++ a.name.text ++ annotationArgs a.args

/-- Annotations on lines of their own. -/
def annotationLines (indent : Nat) (as : List AnnotationUse) : String :=
  String.join (as.map fun a => pad indent ++ annotationUse a ++ "\n")

/-- Annotations in front of something on its line. -/
def inlineAnnotations (as : List AnnotationUse) : String :=
  String.join (as.map fun a => annotationUse a ++ " ")

def declarator (d : Declarator) : String :=
  d.name.name ++ String.join (d.dims.map fun dim => "[" ++ dim.text ++ "]")

def declarators (ds : List Declarator) : String := commaSeparated (ds.map declarator)

def base (b : Option NamedType) : String :=
  match b with
  | some type => " : " ++ type.name.text
  | none => ""

def bound (b : Option ConstExpr) : String :=
  match b with
  | some e => ", " ++ e.text
  | none => ""

def stringBound (b : Option ConstExpr) : String :=
  match b with
  | some e => "<" ++ e.text ++ ">"
  | none => ""

/-- One name a line, with commas between them. -/
def enumerators (indent : Nat) : List Enumerator → String
  | [] => ""
  | [e] => pad indent ++ inlineAnnotations e.annotations ++ e.name.name ++ "\n"
  | e :: es =>
    pad indent ++ inlineAnnotations e.annotations ++ e.name.name ++ ",\n" ++ enumerators indent es

def enumType (indent : Nat) (t : EnumType) : String :=
  "enum " ++ t.name.name ++ " \x7b\n" ++ enumerators (indent + 4) t.enumerators ++ pad indent ++
    "\x7d"

def bitmaskType (indent : Nat) (t : BitmaskType) : String :=
  "bitmask " ++ t.name.name ++ " \x7b\n" ++ enumerators (indent + 4) t.values ++ pad indent ++
    "\x7d"

def bitfield (indent : Nat) (f : Bitfield) : String :=
  annotationLines indent f.annotations ++ pad indent ++ "bitfield<" ++ f.width.text ++
    (match f.type with
      | some type => ", " ++ type.text
      | none => "") ++
    ">" ++ (if f.names.isEmpty then "" else " " ++ names f.names) ++ ";\n"

def bitsetType (indent : Nat) (t : BitsetType) : String :=
  "bitset " ++ t.name.name ++ base t.base ++ " \x7b\n" ++
    String.join (t.bitfields.map (bitfield (indent + 4))) ++ pad indent ++ "\x7d"

def caseLabel (indent : Nat) : CaseLabel → String
  | .value e => pad indent ++ "case " ++ e.text ++ ":\n"
  | .default _ => pad indent ++ "default:\n"

mutual

def typeSpec (indent : Nat) : TypeSpec → String
  | .primitive k => k.text
  | .named t => t.name.text
  | .sequence element b => "sequence<" ++ typeSpec indent element ++ bound b ++ ">"
  | .set element b => "set<" ++ typeSpec indent element ++ bound b ++ ">"
  | .map key value b =>
    "map<" ++ typeSpec indent key ++ ", " ++ typeSpec indent value ++ bound b ++ ">"
  | .string b => "string" ++ stringBound b
  | .wstring b => "wstring" ++ stringBound b
  | .fixed none => "fixed"
  | .fixed (some (digits, scale)) => "fixed<" ++ digits.text ++ ", " ++ scale.text ++ ">"
  | .struct ⟨name, b, fields, _⟩ =>
    "struct " ++ name.name ++ base b ++ " \x7b\n" ++ members (indent + 4) fields ++ pad indent ++
      "\x7d"
  | .union ⟨name, ⟨as, type, _⟩, cases, _⟩ =>
    "union " ++ name.name ++ " switch (" ++ inlineAnnotations as ++ typeSpec indent type ++
      ") \x7b\n" ++ unionCases (indent + 4) cases ++ pad indent ++ "\x7d"
  | .enum t => enumType indent t
  | .bitset t => bitsetType indent t
  | .bitmask t => bitmaskType indent t

def members (indent : Nat) : List (Member TypeSpec) → String
  | [] => ""
  | ⟨as, type, ds, _⟩ :: rest =>
    annotationLines indent as ++ pad indent ++ typeSpec indent type ++ " " ++ declarators ds ++
      ";\n" ++ members indent rest

def unionCases (indent : Nat) : List (UnionCase TypeSpec) → String
  | [] => ""
  | ⟨labels, as, type, d, _⟩ :: rest =>
    String.join (labels.map (caseLabel indent)) ++ annotationLines (indent + 4) as ++
      pad (indent + 4) ++ typeSpec (indent + 4) type ++ " " ++ declarator d ++ ";\n" ++
      unionCases indent rest

end

end Printer

/-- A type as it stands in a member declaration. -/
def TypeSpec.text (t : TypeSpec) : String := Printer.typeSpec 0 t

end Idl
