/-!
The reserved words of the language. They are case-sensitive.
-/

set_option autoImplicit false

namespace Idl

inductive Keyword
  | abstractKw
  | any
  | attributeKw
  | bitfield
  | bitmask
  | bitset
  | boolean
  | caseKw
  | char
  | component
  | const
  | consumes
  | context
  | custom
  | default
  | double
  | emits
  | enum
  | eventType
  | exception
  | factory
  | falseKw
  | finder
  | fixed
  | float
  | getRaises
  | home
  | importKw
  | inKw
  | inOut
  | int8
  | int16
  | int32
  | int64
  | interface
  | localKw
  | long
  | manages
  | map
  | moduleKw
  | multiple
  | native
  | object
  | octet
  | oneway
  | out
  | primaryKey
  | privateKw
  | provides
  | publicKw
  | publishes
  | raises
  | readonly
  | sequence
  | set
  | setRaises
  | short
  | string
  | struct
  | supports
  | switch
  | trueKw
  | truncatable
  | typeDef
  | typeId
  | typePrefix
  | uint8
  | uint16
  | uint32
  | uint64
  | union
  | unsigned
  | uses
  | valueBase
  | valueType
  | void
  | wchar
  | wstring
deriving DecidableEq, Repr

namespace Keyword

/-- The word itself. -/
def text : Keyword → String
  | .abstractKw => "abstract"
  | .any => "any"
  | .attributeKw => "attribute"
  | .bitfield => "bitfield"
  | .bitmask => "bitmask"
  | .bitset => "bitset"
  | .boolean => "boolean"
  | .caseKw => "case"
  | .char => "char"
  | .component => "component"
  | .const => "const"
  | .consumes => "consumes"
  | .context => "context"
  | .custom => "custom"
  | .default => "default"
  | .double => "double"
  | .emits => "emits"
  | .enum => "enum"
  | .eventType => "eventtype"
  | .exception => "exception"
  | .factory => "factory"
  | .falseKw => "FALSE"
  | .finder => "finder"
  | .fixed => "fixed"
  | .float => "float"
  | .getRaises => "getraises"
  | .home => "home"
  | .importKw => "import"
  | .inKw => "in"
  | .inOut => "inout"
  | .int8 => "int8"
  | .int16 => "int16"
  | .int32 => "int32"
  | .int64 => "int64"
  | .interface => "interface"
  | .localKw => "local"
  | .long => "long"
  | .manages => "manages"
  | .map => "map"
  | .moduleKw => "module"
  | .multiple => "multiple"
  | .native => "native"
  | .object => "Object"
  | .octet => "octet"
  | .oneway => "oneway"
  | .out => "out"
  | .primaryKey => "primarykey"
  | .privateKw => "private"
  | .provides => "provides"
  | .publicKw => "public"
  | .publishes => "publishes"
  | .raises => "raises"
  | .readonly => "readonly"
  | .sequence => "sequence"
  | .set => "set"
  | .setRaises => "setraises"
  | .short => "short"
  | .string => "string"
  | .struct => "struct"
  | .supports => "supports"
  | .switch => "switch"
  | .trueKw => "TRUE"
  | .truncatable => "truncatable"
  | .typeDef => "typedef"
  | .typeId => "typeid"
  | .typePrefix => "typeprefix"
  | .uint8 => "uint8"
  | .uint16 => "uint16"
  | .uint32 => "uint32"
  | .uint64 => "uint64"
  | .union => "union"
  | .unsigned => "unsigned"
  | .uses => "uses"
  | .valueBase => "ValueBase"
  | .valueType => "valuetype"
  | .void => "void"
  | .wchar => "wchar"
  | .wstring => "wstring"

/-- All of them, by their text. -/
def all : List Keyword := [
  .abstractKw, .any, .attributeKw, .bitfield, .bitmask, .bitset, .boolean, .caseKw, .char,
  .component, .const, .consumes, .context, .custom, .default, .double, .emits, .enum, .eventType,
  .exception, .factory, .falseKw, .finder, .fixed, .float, .getRaises, .home, .importKw, .inKw,
  .inOut, .int8, .int16, .int32, .int64, .interface, .localKw, .long, .manages, .map, .moduleKw,
  .multiple, .native, .object, .octet, .oneway, .out, .primaryKey, .privateKw, .provides,
  .publicKw, .publishes, .raises, .readonly, .sequence, .set, .setRaises, .short, .string,
  .struct, .supports, .switch, .trueKw, .truncatable, .typeDef, .typeId, .typePrefix, .uint8,
  .uint16, .uint32, .uint64, .union, .unsigned, .uses, .valueBase, .valueType, .void, .wchar,
  .wstring]

/-- The keyword that a word is, if it is one. -/
def ofText? (word : String) : Option Keyword := all.find? (fun k => k.text == word)

theorem mem_all (k : Keyword) : k ∈ all := by cases k <;> decide

theorem ofText?_text (k : Keyword) : ofText? k.text = some k := by cases k <;> decide

theorem text_of_ofText? {word : String} {k : Keyword} (found : ofText? word = some k) :
    k.text = word := by
  simpa using List.find?_some found

end Keyword

end Idl
