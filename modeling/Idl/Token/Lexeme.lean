import Idl.Double.Reader
import Idl.Token.Basic

/-!
Values of literals. The lexer refuses a literal that has none, and the parser decodes the same
lexeme by the same functions.
-/

set_option autoImplicit false

namespace Idl

inductive Radix
  | decimal
  | octal
  | hex
deriving DecidableEq, Repr

def Radix.base : Radix → Nat
  | .decimal => 10
  | .octal => 8
  | .hex => 16

/-- Why a lexeme has no value. -/
inductive LiteralFault
  | tooLarge
  | badDigit (radix : Radix)
  | badNumber (error : Double.ReadError)
  | trailingText
  | noCharacter
  | manyCharacters
  | badCode (code : Nat)
  | noHexDigits (letter : Char)
  | unknownEscape (letter : Char)
  | openEscape
deriving DecidableEq, Repr

def LiteralFault.message : LiteralFault → String
  | .tooLarge => "value does not fit in 64 bits"
  | .badDigit .octal => "invalid digit in octal literal"
  | .badDigit _ => "invalid digit"
  | .badNumber error => error.message
  | .trailingText => "unexpected characters after number"
  | .noCharacter => "empty character literal"
  | .manyCharacters => "more than one character"
  | .badCode code => "invalid escape code " ++ String.ofList (Nat.toDigits 16 code)
  | .noHexDigits letter => "`\\" ++ letter.toString ++ "` escape without hex digits"
  | .unknownEscape letter => "unknown escape `\\" ++ letter.toString ++ "`"
  | .openEscape => "dangling backslash"

namespace Lexeme

/-- The value of a digit in a base up to sixteen, in either case. -/
def digit? (base : Nat) (c : Char) : Option Nat :=
  let value? :=
    if '0' ≤ c ∧ c ≤ '9' then some (c.toNat - '0'.toNat)
    else if 'a' ≤ c ∧ c ≤ 'f' then some (c.toNat - 'a'.toNat + 10)
    else if 'A' ≤ c ∧ c ≤ 'F' then some (c.toNat - 'A'.toNat + 10)
    else none
  value?.filter (· < base)

/-- The digits at the front, at most `count` of them. -/
def digitRun (base : Nat) : Nat → List Char → List Nat
  | 0, _ => []
  | _, [] => []
  | count + 1, c :: cs =>
    match digit? base c with
    | some d => d :: digitRun base count cs
    | none => []

/-- The number with these digits. -/
def ofDigits (base : Nat) (digits : List Nat) : Nat := digits.foldl (fun n d => base * n + d) 0

/-- Adds digits to `n` from left to right and stops at the first fault. -/
def readDigits (radix : Radix) (n : Nat) : List Char → Except LiteralFault Nat
  | [] => .ok n
  | c :: cs =>
    match digit? radix.base c with
    | none => .error (.badDigit radix)
    | some d =>
      if radix.base * n + d < UInt64.size then readDigits radix (radix.base * n + d) cs
      else .error .tooLarge

/-- A number of 64 bits from its digits, with or without a plus in front. -/
def readUnsigned (radix : Radix) (cs : List Char) : Except LiteralFault Nat :=
  let digits := match cs with
    | '+' :: digits => digits
    | digits => digits
  if digits.isEmpty then .error (.badDigit radix) else readDigits radix 0 digits

/-- Without the first `count` bytes; a character that these bytes cut is dropped whole. -/
def dropBytes : Nat → List Char → List Char
  | 0, cs => cs
  | _ + 1, [] => []
  | count + 1, c :: cs => dropBytes (count + 1 - c.utf8Size) cs

/-- The value and radix of an integer lexeme. -/
def integer (kind : LiteralKind) (lexeme : List Char) : Except LiteralFault (Nat × Radix) :=
  match kind with
  | .hex => (readUnsigned .hex (dropBytes 2 lexeme)).map (·, .hex)
  | .octal => (readUnsigned .octal (dropBytes 1 lexeme)).map (·, .octal)
  | _ => (readUnsigned .decimal lexeme).map (·, .decimal)

/-- The value of a floating-point lexeme. -/
def float (lexeme : List Char) : Except LiteralFault Double :=
  (Double.read lexeme).mapError .badNumber

/-- The letter that ends a fixed-point lexeme. -/
def isFixedSuffix (c : Char) : Bool := c = 'd' || c = 'D'

/-- The value of a fixed-point lexeme. -/
def fixed (lexeme : List Char) : Except LiteralFault Double :=
  float (lexeme.reverse.dropWhile isFixedSuffix).reverse

/-- The character that a backslash and one letter stand for. -/
def letterEscape? : Char → Option Char
  | 'n' => some '\n'
  | 't' => some '\t'
  | 'v' => some '\x0b'
  | 'b' => some '\x08'
  | 'r' => some '\r'
  | 'f' => some '\x0c'
  | 'a' => some '\x07'
  | '\\' => some '\\'
  | '?' => some '?'
  | '\'' => some '\''
  | '"' => some '"'
  | _ => none

/-- The character with a code. -/
def ofCode (code : Nat) : Except LiteralFault Char :=
  if code.isValidChar then .ok (Char.ofNat code) else .error (.badCode code)

/-- The character that a backslash and `letter` begin, and how many characters after the letter
belong to it. -/
def escaped (letter : Char) (cs : List Char) : Except LiteralFault (Char × Nat) :=
  match letterEscape? letter with
  | some c => .ok (c, 0)
  | none =>
    match digit? 8 letter with
    | some d =>
      let more := digitRun 8 2 cs
      (ofCode (ofDigits 8 (d :: more))).map (·, more.length)
    | none =>
      if letter = 'x' ∨ letter = 'u' then
        let digits := digitRun 16 (if letter = 'x' then 2 else 4) cs
        if digits.isEmpty then .error (.noHexDigits letter)
        else (ofCode (ofDigits 16 digits)).map (·, digits.length)
      else .error (.unknownEscape letter)

/-- The text between the quotes, with its escapes replaced. -/
def unescape : List Char → Except LiteralFault (List Char)
  | [] => .ok []
  | '\\' :: [] => .error .openEscape
  | '\\' :: letter :: cs => do
    let (c, count) ← escaped letter cs
    return c :: (← unescape (cs.drop count))
  | c :: cs => do return c :: (← unescape cs)
termination_by cs => cs.length
decreasing_by
  all_goals simp only [List.length_drop, List.length_cons]; omega

/-- Without the wide mark and the quotes, as far as they are there. -/
def stripQuotes (quote : Char) (lexeme : List Char) : List Char :=
  let text := match lexeme with
    | 'L' :: text => text
    | text => text
  let text := if text.head? = some quote then text.tail else text
  if text.getLast? = some quote then text.dropLast else text

/-- The value of a character lexeme. -/
def char (lexeme : List Char) : Except LiteralFault Char := do
  match ← unescape (stripQuotes '\'' lexeme) with
  | [] => .error .noCharacter
  | [c] => .ok c
  | _ => .error .manyCharacters

/-- The value of a string lexeme. -/
def string (lexeme : List Char) : Except LiteralFault (List Char) :=
  unescape (stripQuotes '"' lexeme)

/-- Nothing if the lexeme has a value of its kind. -/
def fault? (kind : LiteralKind) (lexeme : List Char) : Option LiteralFault :=
  match kind with
  | .decimal | .octal | .hex => reason (integer kind lexeme)
  | .float => reason (float lexeme)
  | .fixed => reason (fixed lexeme)
  | .char | .wchar => reason (char lexeme)
  | .string | .wstring => reason (string lexeme)
where
  reason {α : Type} : Except LiteralFault α → Option LiteralFault
    | .ok _ => none
    | .error fault => some fault

end Lexeme

end Idl
