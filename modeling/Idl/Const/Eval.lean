import Idl.Const.Typing
import Idl.Double.Reader

/-!
Evaluation of constant expressions against a type. Integers are computed with 128 bits, and each
result has to fit the type.
-/

set_option autoImplicit false

namespace Idl

/-- Why an expression has no value. -/
inductive EvalFault
  | lookup (error : LookupError)
  | notConstant (name : String)
  | usedBeforeDefinition (name : String)
  /-- The constant has failed itself, and that was reported. -/
  | poisoned (name : String)
  | typeMismatch (expected found : String)
  | outOfRange (value : Int) (type : String)
  | overflow (type : String)
  | divisionByZero
  | shiftOutOfRange (amount : Int) (type : String)
  | invalidOperator (op : String) (operands : String)
deriving DecidableEq, Repr

def EvalFault.message : EvalFault → String
  | .lookup error => error.message
  | .notConstant name => "`" ++ name ++ "` is not a constant"
  | .usedBeforeDefinition name => "constant `" ++ name ++ "` is used before its definition"
  | .poisoned name => "constant `" ++ name ++ "` has no valid value"
  | .typeMismatch expected found => found ++ " cannot be used in a " ++ expected ++ " constant"
  | .outOfRange value type => "value " ++ toString value ++ " does not fit in " ++ type
  | .overflow type => "integer overflow in " ++ type ++ " constant expression"
  | .divisionByZero => "division by zero in constant expression"
  | .shiftOutOfRange amount type =>
    "shift amount " ++ toString amount ++ " is out of range for " ++ type
  | .invalidOperator op operands =>
    "operator `" ++ op ++ "` is not defined for " ++ operands ++ " operands"

/-- A fault and the place of the expression that has it. -/
structure EvalError where
  fault : EvalFault
  span : Span
deriving DecidableEq, Repr

/-- The error follows from one that was reported already. -/
def EvalError.isCascade (e : EvalError) : Bool :=
  match e.fault with
  | .poisoned _ => true
  | _ => false

/-- The kind of a literal, in messages. -/
def Literal.noun : Literal → String
  | .integer _ _ => "integer literal"
  | .float _ => "floating-point literal"
  | .fixed _ => "fixed-point literal"
  | .char _ => "character literal"
  | .wchar _ => "wide character literal"
  | .string _ => "string literal"
  | .wstring _ => "wide string literal"
  | .boolean _ => "boolean literal"

/-- The kind of a value, in messages. -/
def ConstValue.noun : ConstValue → String
  | .int _ => "integer"
  | .float _ => "floating-point"
  | .fixed _ => "fixed-point"
  | .bool _ => "boolean"
  | .char _ | .wchar _ => "character"
  | .string _ | .wstring _ => "string"
  | .enumerator _ _ _ => "enumerator"

/-- The double nearest to an integer. -/
def Double.ofInt (v : Int) : Double := .ofDecimal (v < 0) v.natAbs 0

namespace IntKind

/-- The greatest value of a literal or constant within an expression: the magnitude of the least
value may be negated. -/
def operandMax (k : IntKind) : Int := Max.max k.max (-k.min)

def admitsOperand (k : IntKind) (v : Int) : Bool := k.min ≤ v && v ≤ k.operandMax

/-- What 128 bits hold of an integer, as a number in two's complement. -/
def wide (v : Int) : Int := (BitVec.ofInt 128 v).toInt

/-- A result, unless 128 bits do not hold it. -/
def wide? (v : Int) : Option Int := if wide v = v then some v else none

/-- A bitwise operation on two's complement numbers. -/
def bitwise (f : BitVec 128 → BitVec 128 → BitVec 128) (a b : Int) : Int :=
  (f (.ofInt 128 a) (.ofInt 128 b)).toInt

/-- All bits flipped. For an unsigned kind, those of its width. -/
def complement (k : IntKind) (v : Int) : Int :=
  if k.signed then (~~~BitVec.ofInt 128 v).toInt else wide (k.max - v)

/-- The value of a binary operation before its range is checked, unless it overflows. Quotients are
truncated. -/
def binary (k : IntKind) (op : BinaryOp) (a b : Int) : Except EvalFault (Option Int) :=
  match op with
  | .add => .ok (wide? (a + b))
  | .sub => .ok (wide? (a - b))
  | .mul => .ok (wide? (a * b))
  | .div => if b = 0 then .error .divisionByZero else .ok (wide? (a.tdiv b))
  | .mod =>
    -- a remainder overflows where the quotient does
    if b = 0 then .error .divisionByZero else .ok ((wide? (a.tdiv b)).map fun _ => a.tmod b)
  | .shl =>
    if 0 ≤ b ∧ b < k.bits then .ok (wide? (a * wide ((1 : Int) <<< b.toNat)))
    else .error (.shiftOutOfRange b k.text)
  | .shr =>
    if 0 ≤ b ∧ b < k.bits then .ok (some ((BitVec.ofInt 128 a).sshiftRight b.toNat).toInt)
    else .error (.shiftOutOfRange b k.text)
  | .and => .ok (some (bitwise (· &&& ·) a b))
  | .or => .ok (some (bitwise (· ||| ·) a b))
  | .xor => .ok (some (bitwise (· ^^^ ·) a b))

/-- A result, which has to fit the kind. -/
def result (k : IntKind) (v : Option Int) : Except EvalFault Int :=
  match v.filter k.contains with
  | some v => .ok v
  | none => .error (.overflow k.text)

end IntKind

namespace Eval

/-- Where an expression is evaluated, and as what. -/
structure Context where
  symbols : SymbolTable
  scope : SymbolId
  type : ConstType

namespace Context

variable (c : Context)

def typeText : String := c.symbols.constTypeText c.type

/-- An integer from outside the expression. -/
def operand (k : IntKind) (v : Int) : Except EvalFault ConstValue :=
  if k.admitsOperand v then .ok (.int v) else .error (.outOfRange v c.typeText)

/-- A value from outside the expression, as a value of the type: integers widen to numbers of any
kind, floating and fixed point into each other, narrow text into wide text. -/
def convert? (value : ConstValue) : Option (Except EvalFault ConstValue) :=
  match value, c.type with
  | .int v, .integer k => some (c.operand k v)
  | .int v, .float => some (.ok (.float (.ofInt v)))
  | .int v, .fixed => some (.ok (.fixed (.ofInt v)))
  | .float x, .float | .fixed x, .float => some (.ok (.float x))
  | .float x, .fixed | .fixed x, .fixed => some (.ok (.fixed x))
  | .char a, .char => some (.ok (.char a))
  | .char a, .wchar | .wchar a, .wchar => some (.ok (.wchar a))
  | .string s, .string => some (.ok (.string s))
  | .string s, .wstring | .wstring s, .wstring => some (.ok (.wstring s))
  | .bool b, .boolean => some (.ok (.bool b))
  | .enumerator e ordinal name, .enum id =>
    if e = id then some (.ok (.enumerator e ordinal name)) else none
  | _, _ => none

/-- The value of a literal on its own. -/
def literalValue : Literal → ConstValue
  | .integer v _ => .int v
  | .float x => .float x
  | .fixed x => .fixed x
  | .char a => .char a
  | .wchar a => .wchar a
  | .string s => .string s
  | .wstring s => .wstring s
  | .boolean b => .bool b

def literal (l : Literal) : Except EvalFault ConstValue :=
  match c.convert? (literalValue l) with
  | some value => value
  | none => .error (.typeMismatch c.typeText l.noun)

/-- The constant that a name refers to. -/
def constant (name : ScopedName) : Except EvalFault Constant :=
  match c.symbols.resolve c.scope name with
  | .error error => .error (.lookup error)
  | .ok id =>
    match (c.symbols.symbol id).constant with
    | .value constant => .ok constant
    | .pending => .error (.usedBeforeDefinition name.text)
    | .failed => .error (.poisoned name.text)
    | .absent => .error (.notConstant name.text)

def name (n : ScopedName) : Except EvalFault ConstValue := do
  let constant ← c.constant n
  match c.convert? constant.value with
  | some value => value
  | none =>
    let found := "`" ++ n.text ++ "` (" ++ c.symbols.constTypeText constant.type ++ ")"
    .error (.typeMismatch c.typeText found)

/-- The kind that integers are computed in. -/
def intKind (op : String) : Except EvalFault IntKind :=
  match c.type with
  | .integer k => .ok k
  | _ => .error (.invalidOperator op c.typeText)

def unary (op : UnaryOp) (value : ConstValue) : Except EvalFault ConstValue :=
  match op, value with
  | .plus, .int v => .ok (.int v)
  | .plus, .float x => .ok (.float x)
  | .plus, .fixed x => .ok (.fixed x)
  | .minus, .int v => do return .int (← (← c.intKind op.text).result (IntKind.wide? (-v)))
  | .minus, .float x => .ok (.float (-x))
  | .minus, .fixed x => .ok (.fixed (-x))
  | .not, .int v => do
    let k ← c.intKind op.text
    return .int (← k.result (some (k.complement v)))
  | _, _ => .error (.invalidOperator op.text value.noun)

end Context

/-- Arithmetic on doubles. A zero divisor of either sign is refused. -/
def doubleBinary (op : BinaryOp) (a b : Double) : Except EvalFault Double :=
  match op with
  | .add => .ok (a + b)
  | .sub => .ok (a - b)
  | .mul => .ok (a * b)
  | .div => if b.isZero then .error .divisionByZero else .ok (a / b)
  | _ => .error (.invalidOperator op.text "floating-point")

def Context.binary (c : Context) (op : BinaryOp) (left right : ConstValue) :
    Except EvalFault ConstValue :=
  match left, right with
  | .int a, .int b => do
    let k ← c.intKind op.text
    return .int (← k.result (← k.binary op a b))
  | .float a, .float b => (doubleBinary op a b).map .float
  | .fixed a, .fixed b => (doubleBinary op a b).map .fixed
  | _, _ => .error (.invalidOperator op.text left.noun)

/-- The value of an expression. A fault is placed at the innermost expression that has it; an
integer need not fit the type before an operator has been applied to it. -/
def Context.eval (c : Context) : ConstExpr → Except EvalError ConstValue
  | .literal l span _ => (c.literal l).mapError (⟨·, span⟩)
  | .name n span _ => (c.name n).mapError (⟨·, span⟩)
  | .unary op operand span _ => do
    let value ← c.eval operand
    (c.unary op value).mapError (⟨·, span⟩)
  | .binary op left right span _ => do
    let a ← c.eval left
    let b ← c.eval right
    (c.binary op a b).mapError (⟨·, span⟩)

end Eval

/-- Evaluates an expression that stands in `scope` as a constant of a type. -/
def evaluate (symbols : SymbolTable) (scope : SymbolId) (type : ConstType) (e : ConstExpr) :
    Except EvalError Constant := do
  let c : Eval.Context := ⟨symbols, scope, type⟩
  let value ← c.eval e
  match type, value with
  | .integer k, .int v =>
    if k.contains v then return ⟨type, value⟩
    else throw ⟨.outOfRange v c.typeText, e.span⟩
  | _, _ => return ⟨type, value⟩

end Idl
