import Idl.Layout.Basic

/-!
Text of layouts, a block for each entry.
-/

set_option autoImplicit false

namespace Idl.TypeModel

/-- A name with a bound in angles, if there is one. -/
def bounded (name : String) (bound : Option Nat) : String :=
  match bound with
  | some b => name ++ "<" ++ toString b ++ ">"
  | none => name

/-- A last template argument, if there is one. -/
def boundArg (bound : Option Nat) : String :=
  match bound with
  | some b => ", " ++ toString b
  | none => ""

/-- A type by its name; a symbol without an entry goes by its number. -/
def typeName (m : TypeModel) : LayoutType → String
  | .primitive k => k.text
  | .string bound => bounded "string" bound
  | .wstring bound => bounded "wstring" bound
  | .fixed digits scale => "fixed<" ++ toString digits ++ ", " ++ toString scale ++ ">"
  | .sequence element bound => "sequence<" ++ m.typeName element ++ boundArg bound ++ ">"
  | .set element bound => "set<" ++ m.typeName element ++ boundArg bound ++ ">"
  | .map key value bound =>
    "map<" ++ m.typeName key ++ ", " ++ m.typeName value ++ boundArg bound ++ ">"
  | .named id =>
    match m.get? id with
    | some entry => entry.name
    | none => "#" ++ toString id
  | .unresolved name => "<unresolved " ++ name ++ ">"

namespace Printer

def dims (ds : List Nat) : String := String.join (ds.map fun d => "[" ++ toString d ++ "]")

def field (m : TypeModel) (lead : String) (f : Field) : String :=
  lead ++ f.name ++ ": " ++ m.typeName f.type ++ dims f.dims ++ (if f.key then " @key" else "") ++
    (if f.optional then " @optional" else "") ++ "\n"

def base (m : TypeModel) (b : Option SymbolId) : String :=
  match b with
  | some id => " : " ++ m.typeName (.named id)
  | none => ""

def structEntry (m : TypeModel) (word name : String) (s : StructLayout) : String :=
  word ++ " " ++ name ++ base m s.base ++ "\n" ++ String.join (s.fields.map (field m "    "))

def unionCase (m : TypeModel) (c : CaseLayout) : String :=
  let labels := c.labels.map ConstValue.text ++ (if c.isDefault then ["default"] else [])
  field m ("    case " ++ ", ".intercalate labels ++ ": ") c.field

def enumerators (ordinal : Nat) : List String → String
  | [] => ""
  | name :: names =>
    "    " ++ name ++ " = " ++ toString ordinal ++ "\n" ++ enumerators (ordinal + 1) names

def flag (f : Flag) : String := "    " ++ f.name ++ " @ bit " ++ toString f.position ++ "\n"

def bitfield (f : BitfieldLayout) : String :=
  "    " ++ f.name.getD "_" ++ ": " ++ toString f.width ++ " bits @ " ++ toString f.offset ++
    " -> " ++ f.type.text ++ "\n"

def constType (m : TypeModel) : ConstType → String
  | .enum id => m.typeName (.named id)
  | type => type.text

def bitBound (n : Nat) : String := " (bit_bound " ++ toString n ++ ")\n"

def entry (m : TypeModel) (e : Entry) : String :=
  match e.kind with
  | .struct s => structEntry m "struct" e.name s
  | .exception s => structEntry m "exception" e.name s
  | .union u =>
    "union " ++ e.name ++ " switch (" ++ m.typeName u.discriminant ++ ")\n" ++
      String.join (u.cases.map (unionCase m))
  | .enum t => "enum " ++ e.name ++ bitBound t.bitBound ++ enumerators 0 t.enumerators
  | .bitmask t =>
    "bitmask " ++ e.name ++ bitBound t.bitBound ++ String.join (t.flags.map flag)
  | .bitset t =>
    "bitset " ++ e.name ++ base m t.base ++ " (" ++ toString t.totalBits ++ " bits)\n" ++
      String.join (t.fields.map bitfield)
  | .typedef a => "typedef " ++ e.name ++ " = " ++ m.typeName a.type ++ dims a.dims ++ "\n"
  | .const c =>
    "const " ++ e.name ++ ": " ++ constType m c.type ++ " = " ++ c.value.text ++ "\n"
  | .native => "native " ++ e.name ++ "\n"
  | .sealed noun => noun ++ " " ++ e.name ++ " (opaque)\n"

end Printer

def text (m : TypeModel) : String := String.join (m.entries.map (Printer.entry m))

end Idl.TypeModel
