import Idl.Text.Blank
import Idl.Token.Basic

/-!
Lexical shapes: how many characters at the front of a text form an identifier, a number, a quoted
literal, a comment or a directive. A shape is a count, so the lexeme and the rest always make up
the text.
-/

set_option autoImplicit false

namespace Idl.Shape

/-- How many characters at the front satisfy `p`. -/
def run (p : Char → Bool) (cs : List Char) : Nat := (cs.takeWhile p).length

/-- The count, unless it is zero. -/
def some? (n : Nat) : Option Nat := if n = 0 then none else some n

def isAlpha (c : Char) : Bool := ('a' ≤ c && c ≤ 'z') || ('A' ≤ c && c ≤ 'Z')

def isDigit (c : Char) : Bool := '0' ≤ c && c ≤ '9'

def isHexDigit (c : Char) : Bool :=
  isDigit c || ('a' ≤ c && c ≤ 'f') || ('A' ≤ c && c ≤ 'F')

/-- The character may begin an identifier. -/
def startsWord (c : Char) : Bool := isAlpha c || c = '_'

/-- The character may continue an identifier, or run into a number. -/
def continuesWord (c : Char) : Bool := isAlpha c || isDigit c || c = '_'

/-- A letter or underscore, then letters, digits and underscores. -/
def ident? : List Char → Option Nat
  | c :: cs => if startsWord c then some (1 + run continuesWord cs) else none
  | [] => none

/-- At least one digit. -/
def digits? (cs : List Char) : Option Nat := some? (run isDigit cs)

/-- Digits with a point after, within or before them. -/
def mantissa? (cs : List Char) : Option Nat :=
  let whole := run isDigit cs
  match cs.drop whole with
  | '.' :: rest =>
    let places := run isDigit rest
    if whole = 0 && places = 0 then none else some (whole + 1 + places)
  | _ => none

/-- `e`, perhaps a sign, and digits. -/
def exponent? : List Char → Option Nat
  | e :: cs =>
    if e = 'e' || e = 'E' then
      let sign := match cs with
        | '+' :: _ => 1
        | '-' :: _ => 1
        | _ => 0
      (digits? (cs.drop sign)).map (1 + sign + ·)
    else none
  | [] => none

def hex? : List Char → Option Nat
  | '0' :: x :: cs => if x = 'x' || x = 'X' then (some? (run isHexDigit cs)).map (2 + ·) else none
  | _ => none

/-- A mantissa or, where there is none, digits, and then the suffix. -/
def fixed? (cs : List Char) : Option Nat := do
  let n ← mantissa? cs <|> digits? cs
  match cs.drop n with
  | d :: _ => if d = 'd' || d = 'D' then some (n + 1) else none
  | [] => none

/-- A mantissa, perhaps with an exponent, or digits with an exponent. -/
def float? (cs : List Char) : Option Nat :=
  match mantissa? cs with
  | some n => some (n + (exponent? (cs.drop n)).getD 0)
  | none => do
    let n ← digits? cs
    (exponent? (cs.drop n)).map (n + ·)

/-- A zero and digits after it. -/
def octal? : List Char → Option Nat
  | '0' :: cs => (digits? cs).map (1 + ·)
  | _ => none

/-- The first shape that fits: hexadecimal, fixed-point, floating-point, octal, decimal. -/
def number? (cs : List Char) : Option (LiteralKind × Nat) :=
  (hex? cs).map (.hex, ·) <|> (fixed? cs).map (.fixed, ·) <|> (float? cs).map (.float, ·) <|>
    (octal? cs).map (.octal, ·) <|> (digits? cs).map (.decimal, ·)

/-- Up to and with the first `quote` that no backslash escapes, on this line. -/
def closing? (quote : Char) : List Char → Option Nat
  | [] => none
  | c :: cs =>
    if c = '\n' then none
    else if c = quote then some 1
    else if c = '\\' then
      match cs with
      | [] => none
      | d :: ds => if d = '\n' then none else (closing? quote ds).map (2 + ·)
    else (closing? quote cs).map (1 + ·)

/-- Up to the end of the line. -/
def restOfLine (cs : List Char) : Nat := run (· != '\n') cs

/-- Two slashes and the rest of the line. A carriage return that no newline follows is no end of a
line, and there is then no comment. -/
def lineComment? : List Char → Option Nat
  | '/' :: '/' :: cs =>
    let n := run (fun c => c != '\r' && c != '\n') cs
    match cs.drop n with
    | '\r' :: '\n' :: _ => some (2 + n)
    | '\r' :: _ => none
    | _ => some (2 + n)
  | _ => none

/-- Up to and with the first star that a slash follows. -/
def commentEnd? : List Char → Option Nat
  | '*' :: '/' :: _ => some 2
  | _ :: cs => (commentEnd? cs).map (1 + ·)
  | [] => none

/-- A line, and the next one after each that ends in a backslash; the newline that ends the last
one is left. -/
def directive (cs : List Char) : Nat :=
  let n := restOfLine cs
  match h : cs.drop n with
  | _ :: d :: ds =>
    if (Text.dropEndBlanks (cs.take n)).getLast? = some '\\' then n + 1 + directive (d :: ds)
    else n
  | _ => n
termination_by cs.length
decreasing_by
  have shorter := congrArg List.length h
  simp only [List.length_drop, List.length_cons] at shorter ⊢
  omega

/-- The mark at the front; two colons make one mark. -/
def punct? : List Char → Option (Punct × Nat)
  | ':' :: ':' :: _ => some (.colonColon, 2)
  | c :: _ => (Punct.single.find? (fun p => p.text.toList == [c])).map (·, 1)
  | [] => none

end Idl.Shape
