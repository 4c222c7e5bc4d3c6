import Idl.Double.Basic

/-!
Doubles from decimal text. The number written is rounded to the nearest double, a tie to the even
one, in exact arithmetic.
-/

set_option autoImplicit false

namespace Idl.Double

/-- `num / den` to the nearest whole number, a tie to the even one. -/
def roundHalfEven (num den : Nat) : Nat :=
  let whole := num / den
  let twice := 2 * (num % den)
  if twice < den then whole
  else if den < twice then whole + 1
  else whole + whole % 2

/-- The magnitude nearest to `num / den`; too large a number is infinite. The unit in the last
place is `2 ^ k / 2 ^ 1074` with `k` as small as fifty-three bits allow. -/
def nearestMagnitude (num den : Nat) : Nat :=
  let num := num <<< 1074
  let k := (num / den).log2 - 52
  min (k * unitBit + roundHalfEven num (den <<< k)) infinityBits

/-- Beyond this power of ten every number is infinite, and below its inverse zero. -/
def decimalReach : Int := 400

/-- The double nearest to `digits * 10 ^ exponent`. -/
def ofDecimal (negative : Bool) (digits : Nat) (exponent : Int) : Double :=
  let size : Int := (Nat.toDigits 10 digits).length + exponent
  if digits = 0 || size < -decimalReach then ofMagnitude negative 0
  else if decimalReach < size then infinity negative
  else if exponent < 0 then
    ofMagnitude negative (nearestMagnitude digits (Nat.pow 10 (-exponent).toNat))
  else ofMagnitude negative (nearestMagnitude (digits * Nat.pow 10 exponent.toNat) 1)

/-- The value of decimal digits. -/
def digitsValue (cs : List Char) : Nat :=
  cs.foldl (fun n c => 10 * n + (c.toNat - '0'.toNat)) 0

inductive ReadError
  | empty
  | malformed
deriving DecidableEq, Repr

def ReadError.message : ReadError → String
  | .empty => "cannot parse float from empty string"
  | .malformed => "invalid float literal"

/-- A sign, if there is one: whether it is a minus, and the rest. -/
def readSign : List Char → Bool × List Char
  | '-' :: cs => (true, cs)
  | '+' :: cs => (false, cs)
  | cs => (false, cs)

/-- An exponent part that reaches the end, or nothing. -/
def readExponent? : List Char → Option Int
  | [] => some 0
  | e :: cs =>
    let (minus, digits) := readSign cs
    if (e = 'e' || e = 'E') && !digits.isEmpty && digits.all Char.isDigit then
      some (if minus then -(digitsValue digits : Int) else digitsValue digits)
    else none

/-- Digits with at most one point among or beside them, and perhaps an exponent. -/
def readNumber? (negative : Bool) (cs : List Char) : Option Double :=
  let whole := cs.takeWhile Char.isDigit
  let rest := cs.dropWhile Char.isDigit
  let (places, rest) := match rest with
    | '.' :: rest => (rest.takeWhile Char.isDigit, rest.dropWhile Char.isDigit)
    | _ => ([], rest)
  let digits := whole ++ places
  if digits.isEmpty then none
  else (readExponent? rest).map (fun e =>
    ofDecimal negative (digitsValue digits) (e - places.length))

/-- The words for what is no finite number, in any case. -/
def readWord? (negative : Bool) (cs : List Char) : Option Double :=
  let word := String.ofList (cs.map Char.toLower)
  if word = "inf" || word = "infinity" then some (infinity negative)
  else if word = "nan" then some nan
  else none

/-- The double that a decimal text denotes. -/
def read (cs : List Char) : Except ReadError Double :=
  if cs.isEmpty then .error .empty
  else
    let (negative, body) := readSign cs
    match readNumber? negative body <|> readWord? negative body with
    | some x => .ok x
    | none => .error .malformed

end Idl.Double
