import Idl.Const.Value
import Idl.Syntax.Type

/-!
Layouts: what a decoder has to know of each type, with every reference bound and every size
evaluated.
-/

set_option autoImplicit false

namespace Idl

/-- The type of a member or element. -/
inductive LayoutType
  | primitive (kind : Primitive)
  | string (bound : Option Nat)
  | wstring (bound : Option Nat)
  | fixed (digits scale : Nat)
  | sequence (element : LayoutType) (bound : Option Nat)
  | set (element : LayoutType) (bound : Option Nat)
  | map (key value : LayoutType) (bound : Option Nat)
  | named (id : SymbolId)
  /-- The name refers to no type. -/
  | unresolved (name : String)
deriving DecidableEq, Repr

structure Field where
  name : String
  type : LayoutType
  /-- Array dimensions, the outermost first. -/
  dims : List Nat
  key : Bool
  optional : Bool
deriving DecidableEq, Repr

/-- Fields in the order of decoding. -/
structure StructLayout where
  base : Option SymbolId
  fields : List Field
deriving DecidableEq, Repr

structure CaseLayout where
  labels : List ConstValue
  isDefault : Bool
  field : Field
deriving DecidableEq, Repr

structure UnionLayout where
  discriminant : LayoutType
  cases : List CaseLayout
deriving DecidableEq, Repr

namespace UnionLayout

def defaultCase? (u : UnionLayout) : Option CaseLayout := u.cases.find? (·.isDefault)

/-- The case that a value of the discriminant selects. -/
def caseFor? (u : UnionLayout) (value : ConstValue) : Option CaseLayout :=
  u.cases.find? (fun c => c.labels.any (·.same value)) <|> u.defaultCase?

end UnionLayout

/-- Enumerators by their ordinals. -/
structure EnumLayout where
  bitBound : Nat
  enumerators : List String
deriving DecidableEq, Repr

def EnumLayout.ordinal? (e : EnumLayout) (name : String) : Option Nat :=
  e.enumerators.findIdx? (· == name)

structure Flag where
  name : String
  position : Nat
deriving DecidableEq, Repr

structure BitmaskLayout where
  bitBound : Nat
  flags : List Flag
deriving DecidableEq, Repr

structure BitfieldLayout where
  /-- Padding has no name. -/
  name : Option String
  /-- Bits in front of the field, those of the base among them. -/
  offset : Nat
  width : Nat
  type : Primitive
deriving DecidableEq, Repr

structure BitsetLayout where
  base : Option SymbolId
  fields : List BitfieldLayout
  totalBits : Nat
deriving DecidableEq, Repr

structure AliasLayout where
  type : LayoutType
  dims : List Nat
deriving DecidableEq, Repr

inductive EntryKind
  | struct (layout : StructLayout)
  | union (layout : UnionLayout)
  | enum (layout : EnumLayout)
  | bitmask (layout : BitmaskLayout)
  | bitset (layout : BitsetLayout)
  | typedef (layout : AliasLayout)
  | const (constant : Constant)
  | exception (layout : StructLayout)
  | native
  /-- Without a layout: all that is known is what kind of thing it is. -/
  | sealed (noun : String)
deriving DecidableEq, Repr

/-- Equality of what is denoted: floating-point constants are compared as numbers. -/
def EntryKind.same : EntryKind → EntryKind → Bool
  | .const a, .const b => a.same b
  | a, b => a == b

/-- What is known of a symbol. -/
structure Entry where
  id : SymbolId
  /-- The qualified name of the symbol. -/
  name : String
  kind : EntryKind
deriving DecidableEq, Repr

def Entry.same (a b : Entry) : Bool := a.id == b.id && a.name == b.name && a.kind.same b.kind

/-- The entries of a unit in document order, types defined in place before what they stand in. -/
structure TypeModel where
  entries : List Entry
deriving DecidableEq, Repr

namespace TypeModel

def empty : TypeModel := ⟨[]⟩

def size (m : TypeModel) : Nat := m.entries.length

def isEmpty (m : TypeModel) : Bool := m.entries.isEmpty

def get? (m : TypeModel) (id : SymbolId) : Option Entry := m.entries.find? (·.id == id)

/-- Puts an entry in the place of the one of its symbol or, if there is none, at the end. -/
def insert (m : TypeModel) (e : Entry) : TypeModel :=
  if (m.get? e.id).isSome then ⟨m.entries.map fun old => if old.id == e.id then e else old⟩
  else ⟨m.entries ++ [e]⟩

/-- Both models say the same. -/
def same (m n : TypeModel) : Bool :=
  m.size == n.size && (m.entries.zip n.entries).all fun (a, b) => a.same b

/-- Follows at most `fuel` typedefs without array dimensions. -/
def unaliasWithin (m : TypeModel) : (fuel : Nat) → LayoutType → LayoutType
  | 0, type => type
  | fuel + 1, .named id =>
    match m.get? id with
    | some ⟨_, _, .typedef layout⟩ =>
      if layout.dims.isEmpty then m.unaliasWithin fuel layout.type else .named id
    | _ => .named id
  | _ + 1, type => type

/-- The type behind typedefs without array dimensions. -/
def unalias (m : TypeModel) (type : LayoutType) : LayoutType := m.unaliasWithin m.size type

end TypeModel

end Idl
