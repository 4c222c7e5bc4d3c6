import Idl.Grammar.Cursor
import Idl.Syntax.Expr

/-!
Names, literals and constant expressions. The binary operators stand on six levels, and all
associate to the left.
-/

set_option autoImplicit false

namespace Idl.Grammar

def ident : Parser Ident := fun s =>
  let t := s.peek
  if t.kind = .ident then .ok ⟨t.lexeme, t.span⟩ s.bump else expected "identifier" s

def scopedName : Parser ScopedName := do
  let start ← here
  let absolute ← eat .colonColon
  let first ← ident
  let more ← manyAfter .colonColon ident
  return ⟨absolute, first, more, ← spanFrom start⟩

/-- Takes a literal token and decodes its lexeme. -/
def decoded {α : Type} (decode : List Char → Except LiteralFault α) : Parser (α × Span) := fun s =>
  let t := s.peek
  match decode t.lexeme.toList with
  | .ok a => .ok (a, t.span) s.bump
  | .error reason => .error (.badLiteral t reason) s.bump

/-- String literals of one kind in a row make one text. -/
def stringRun (kind : LiteralKind) : Parser (String × Span) := do
  let (first, start) ← decoded Lexeme.string
  let more ← many (fun s => s.kind != .literal kind) (decoded Lexeme.string)
  let span := more.foldl (fun span m => span.join m.2) start
  return (String.ofList (first ++ more.flatMap (·.1)), span)

/-- A string literal outside expressions. -/
def stringLiteral : Parser String := do
  if ← test (·.kind == .literal .string) then
    return (← stringRun .string).1
  else expected "string literal"

/-- The literal of a token of the given kind, which is next. -/
def literal (kind : LiteralKind) : Parser ConstExpr := do
  let (value, span) ← match kind with
    | .decimal | .octal | .hex => do
      let ((n, radix), span) ← decoded (Lexeme.integer kind)
      pure (Literal.integer n radix, span)
    | .float => do
      let (x, span) ← decoded Lexeme.float
      pure (Literal.float x, span)
    | .fixed => do
      let (x, span) ← decoded Lexeme.fixed
      pure (Literal.fixed x, span)
    | .char => do
      let (c, span) ← decoded Lexeme.char
      pure (Literal.char c, span)
    | .wchar => do
      let (c, span) ← decoded Lexeme.char
      pure (Literal.wchar c, span)
    | .string => do
      let (text, span) ← stringRun .string
      pure (Literal.string text, span)
    | .wstring => do
      let (text, span) ← stringRun .wstring
      pure (Literal.wstring text, span)
  return .literal value span none

/-- The operator that is next and the number of its tokens, if it is one of a level. -/
abbrev OperatorLevel : Type := Cursor → Option (BinaryOp × Nat)

def oneMark (mark : Punct) (op : BinaryOp) : OperatorLevel := fun s =>
  if s.at? mark then some (op, 1) else none

/-- Either of two levels. -/
def eitherLevel (a b : OperatorLevel) : OperatorLevel := fun s => a s <|> b s

/-- Two angles without a gap between them shift; within template arguments, closing ones do not. -/
def shiftLevel (inTemplate : Bool) : OperatorLevel := fun s =>
  let first := s.nth 0
  let second := s.nth 1
  if !first.span.adjacent second.span then none
  else if first.kind = .punct .less ∧ second.kind = .punct .less then some (.shl, 2)
  else if first.kind = .punct .greater ∧ second.kind = .punct .greater ∧ !inTemplate then
    some (.shr, 2)
  else none

/-- The levels of binary operators, the tightest first. -/
def operatorLevels (inTemplate : Bool) : List OperatorLevel := [
  eitherLevel (oneMark .star .mul) (eitherLevel (oneMark .slash .div) (oneMark .percent .mod)),
  eitherLevel (oneMark .plus .add) (oneMark .minus .sub),
  shiftLevel inTemplate,
  oneMark .ampersand .and,
  oneMark .caret .xor,
  oneMark .pipe .or]

/-- Takes an operator. Each one of an expression counts as one level of nesting. -/
def operator (l : Level) (op : BinaryOp) (tokens : Nat) : Parser BinaryOp := fun s =>
  let s := s.bump
  let s := if tokens = 2 then s.bump else s
  let s := { s with operators := s.operators + 1 }
  if l.left < s.operators then .error (.tooDeep l.limit s.previous) s else .ok op s

/-- An operator and the operand after it. -/
def operatorStep (l : Level) (level : OperatorLevel) (operand : Parser ConstExpr) :
    Parser (BinaryOp × ConstExpr) := fun s =>
  match level s with
  | none => expected "operator" s
  | some (op, tokens) => (do
      let op ← operator l op tokens
      return (op, ← operand)) s

/-- Applies a binary operator to what was read before it. -/
def joined (left : ConstExpr) (step : BinaryOp × ConstExpr) : ConstExpr :=
  .binary step.1 left step.2 (left.span.join step.2.span) none

/-- Operands with operators of one level between them. -/
def chain (l : Level) (operand : Parser ConstExpr) (level : OperatorLevel) : Parser ConstExpr := do
  let first ← operand
  let steps ← many (fun s => (level s).isNone) (operatorStep l level operand)
  return steps.foldl joined first

/-- Operands with any binary operators between them. -/
def binaryExpr (l : Level) (operand : Parser ConstExpr) : Parser ConstExpr :=
  (operatorLevels l.inTemplate).foldl (chain l) operand

def unaryOp? : TokenKind → Option UnaryOp
  | .punct .plus => some .plus
  | .punct .minus => some .minus
  | .punct .tilde => some .not
  | _ => none

/-- An operand: a literal, a name, an operator in front of `operand`, or parentheses around
`whole`. -/
def operandWith (operand whole : Parser ConstExpr) : Parser ConstExpr := do
  let next ← kind
  match unaryOp? next with
  | some op =>
    let t ← bump
    let e ← operand
    return .unary op e (t.span.join e.span) none
  | none =>
    match next with
    | .ident | .punct .colonColon => do
      let name ← scopedName
      return .name name name.span none
    | .keyword .trueKw => do
      let t ← bump
      return .literal (.boolean true) t.span none
    | .keyword .falseKw => do
      let t ← bump
      return .literal (.boolean false) t.span none
    | .literal k => literal k
    | .punct .leftParen => do
      discard bump
      let e ← whole
      discard (expect .rightParen)
      return e
    | _ => expected "constant expression"

/-- An operand, which may nest `left` levels deep. -/
def operand (limit : Nat) : (left : Nat) → (inTemplate : Bool) → Cursor → Outcome ConstExpr
  | 0, _, s => operandWith (tooDeep limit) (tooDeep limit) s
  | left + 1, inTemplate, s =>
    operandWith (operand limit left inTemplate)
      (binaryExpr ⟨limit, left, false⟩ (operand limit left false)) s

/-- A constant expression. -/
def constExpr (l : Level) : Parser ConstExpr := do
  modify fun s => { s with operators := 0 }
  binaryExpr l (operand l.limit l.left l.inTemplate)

end Idl.Grammar
