import Idl.Const.Value
import Idl.Span
import Idl.Token.Lexeme

/-!
Names and constant expressions as they are written, with their places.
-/

set_option autoImplicit false

namespace Idl

structure Ident where
  name : String
  span : Span
deriving DecidableEq, Repr

/-- Names joined by `::`, with or without one in front. A first segment is always there. -/
structure ScopedName where
  absolute : Bool
  first : Ident
  more : List Ident
  span : Span
deriving DecidableEq, Repr

namespace ScopedName

def segments (n : ScopedName) : List Ident := n.first :: n.more

def last (n : ScopedName) : Ident := n.more.getLastD n.first

/-- The names alone. -/
def path (n : ScopedName) : List String := n.segments.map (·.name)

/-- The name as it is written. -/
def text (n : ScopedName) : String :=
  (if n.absolute then "::" else "") ++ "::".intercalate n.path

end ScopedName

inductive BinaryOp
  | or
  | xor
  | and
  | shl
  | shr
  | add
  | sub
  | mul
  | div
  | mod
deriving DecidableEq, Repr

def BinaryOp.text : BinaryOp → String
  | .or => "|"
  | .xor => "^"
  | .and => "&"
  | .shl => "<<"
  | .shr => ">>"
  | .add => "+"
  | .sub => "-"
  | .mul => "*"
  | .div => "/"
  | .mod => "%"

inductive UnaryOp
  | plus
  | minus
  | not
deriving DecidableEq, Repr

def UnaryOp.text : UnaryOp → String
  | .plus => "+"
  | .minus => "-"
  | .not => "~"

/-- A literal by its value; an integer keeps the radix it was written in. -/
inductive Literal
  | integer (value : Nat) (radix : Radix)
  | float (value : Double)
  | fixed (value : Double)
  | char (value : Char)
  | wchar (value : Char)
  | string (value : String)
  | wstring (value : String)
  | boolean (value : Bool)
deriving DecidableEq, Repr

/-- A constant expression. Each node has its place, and the value it was evaluated to, if it was. -/
inductive ConstExpr
  | binary (op : BinaryOp) (left right : ConstExpr) (span : Span) (value : Option Constant)
  | unary (op : UnaryOp) (operand : ConstExpr) (span : Span) (value : Option Constant)
  | literal (literal : Literal) (span : Span) (value : Option Constant)
  | name (name : ScopedName) (span : Span) (value : Option Constant)
deriving DecidableEq, Repr

namespace ConstExpr

def span : ConstExpr → Span
  | .binary _ _ _ s _ | .unary _ _ s _ | .literal _ s _ | .name _ s _ => s

/-- The value that evaluation has put here. -/
def value : ConstExpr → Option Constant
  | .binary _ _ _ _ v | .unary _ _ _ v | .literal _ _ v | .name _ _ v => v

def withValue (e : ConstExpr) (value : Option Constant) : ConstExpr :=
  match e with
  | .binary op left right s _ => .binary op left right s value
  | .unary op operand s _ => .unary op operand s value
  | .literal l s _ => .literal l s value
  | .name n s _ => .name n s value

/-- The value as a size. -/
def positive? (e : ConstExpr) : Option Nat := e.value.bind (·.value.positive?)

@[simp] theorem value_withValue (e : ConstExpr) (v : Option Constant) :
    (e.withValue v).value = v := by cases e <;> rfl

@[simp] theorem span_withValue (e : ConstExpr) (v : Option Constant) :
    (e.withValue v).span = e.span := by cases e <;> rfl

@[simp] theorem withValue_value (e : ConstExpr) : e.withValue e.value = e := by cases e <;> rfl

end ConstExpr

end Idl
