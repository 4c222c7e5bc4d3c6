import Idl.Double.Text
import Idl.Text.Quoted

/-!
Values of constants, and the types they are evaluated against.
-/

set_option autoImplicit false

namespace Idl

/-- A symbol by its number in the symbol table. -/
abbrev SymbolId := Nat

/-- Integers of a fixed width. -/
inductive IntKind
  | int8
  | uint8
  | int16
  | uint16
  | int32
  | uint32
  | int64
  | uint64
deriving DecidableEq, Repr

namespace IntKind

def bits : IntKind → Nat
  | .int8 | .uint8 => 8
  | .int16 | .uint16 => 16
  | .int32 | .uint32 => 32
  | .int64 | .uint64 => 64

def signed : IntKind → Bool
  | .int8 | .int16 | .int32 | .int64 => true
  | .uint8 | .uint16 | .uint32 | .uint64 => false

/-- How many values there are. -/
def count : IntKind → Nat
  | .int8 | .uint8 => UInt8.size
  | .int16 | .uint16 => UInt16.size
  | .int32 | .uint32 => UInt32.size
  | .int64 | .uint64 => UInt64.size

/-- The least value. -/
def min (k : IntKind) : Int := if k.signed then -(k.count / 2 : Nat) else 0

/-- The greatest value. -/
def max (k : IntKind) : Int := k.min + k.count - 1

/-- The value is in the range of the kind. -/
def contains (k : IntKind) (v : Int) : Bool := k.min ≤ v && v ≤ k.max

def text : IntKind → String
  | .int8 => "int8"
  | .uint8 => "uint8"
  | .int16 => "int16"
  | .uint16 => "uint16"
  | .int32 => "int32"
  | .uint32 => "uint32"
  | .int64 => "int64"
  | .uint64 => "uint64"

/-- All kinds. -/
def all : List IntKind := [.int8, .uint8, .int16, .uint16, .int32, .uint32, .int64, .uint64]

@[simp] theorem contains_iff (k : IntKind) (v : Int) :
    k.contains v = true ↔ k.min ≤ v ∧ v ≤ k.max := by
  simp [contains]

theorem min_le_max (k : IntKind) : k.min ≤ k.max := by cases k <;> decide

end IntKind

/-- What a constant expression is evaluated as. All floating-point types share one evaluation, in
`Double`. -/
inductive ConstType
  | integer (kind : IntKind)
  | float
  | fixed
  | char
  | wchar
  | boolean
  | string
  | wstring
  /-- The enumerators of one enum. -/
  | enum (id : SymbolId)
deriving DecidableEq, Repr

def ConstType.text : ConstType → String
  | .integer kind => kind.text
  | .float => "floating-point"
  | .fixed => "fixed-point"
  | .char => "char"
  | .wchar => "wchar"
  | .boolean => "boolean"
  | .string => "string"
  | .wstring => "wstring"
  | .enum id => s!"enum #{id}"

inductive ConstValue
  | int (v : Int)
  | float (x : Double)
  | fixed (x : Double)
  | bool (b : Bool)
  | char (c : Char)
  | wchar (c : Char)
  | string (s : String)
  | wstring (s : String)
  | enumerator (enum : SymbolId) (ordinal : Nat) (name : String)
deriving DecidableEq, Repr

namespace ConstValue

def int? : ConstValue → Option Int
  | .int v => some v
  | _ => none

/-- The value as a size: a positive integer of at most 64 bits. -/
def positive? (v : ConstValue) : Option Nat :=
  match v.int? with
  | some n => if 0 < n ∧ n < UInt64.size then some n.toNat else none
  | none => none

/-- The value as messages show it. -/
def text : ConstValue → String
  | .int v => toString v
  | .float x => x.text
  | .fixed x => x.plainText ++ "d"
  | .bool true => "TRUE"
  | .bool false => "FALSE"
  | .char c => Text.shownChar c
  | .wchar c => "L" ++ Text.shownChar c
  | .string s => Text.shownString s
  | .wstring s => "L" ++ Text.shownString s
  | .enumerator _ _ name => name

/-- Equality of what is denoted: doubles are compared as numbers. -/
def same : ConstValue → ConstValue → Bool
  | .float x, .float y => x.sameNumber y
  | .fixed x, .fixed y => x.sameNumber y
  | v, w => v == w

/-- The value is of the type: of the form the type calls for, an integer in range, an enumerator of
the enum. -/
def HasType : ConstValue → ConstType → Prop
  | .int v, .integer k => k.min ≤ v ∧ v ≤ k.max
  | .float _, .float => True
  | .fixed _, .fixed => True
  | .bool _, .boolean => True
  | .char _, .char => True
  | .wchar _, .wchar => True
  | .string _, .string => True
  | .wstring _, .wstring => True
  | .enumerator e _ _, .enum id => e = id
  | _, _ => False

@[simp] theorem positive?_eq_some_iff (v : ConstValue) (n : Nat) :
    v.positive? = some n ↔ v = .int n ∧ 0 < n ∧ n < UInt64.size := by
  cases v with
  | int i =>
    simp only [positive?, int?]
    split
    · next h => simp only [Option.some.injEq, int.injEq]; omega
    · next h => simp only [reduceCtorEq, int.injEq, false_iff]; omega
  | _ => simp [positive?, int?]

end ConstValue

/-- The outcome of an evaluation: a value and the type it was evaluated as. -/
structure Constant where
  type : ConstType
  value : ConstValue
deriving DecidableEq, Repr

/-- Equality of what is denoted. -/
def Constant.same (a b : Constant) : Bool := a.type == b.type && a.value.same b.value

end Idl
