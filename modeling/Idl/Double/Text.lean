import Idl.Double.Shortest

/-!
Decimal text of doubles, in two formats over the same shortest digits.
-/

set_option autoImplicit false

namespace Idl.Double

/-- How a double is written. -/
structure Format where
  /-- An exponent stands for many zeros. -/
  exponents : Bool
  /-- A whole number ends in `.0`. -/
  point : Bool
deriving DecidableEq, Repr

/-- Constants and floating-point literals: with a point, and an exponent from `1e16` up and below
`1e-4`. -/
def general : Format := ⟨true, true⟩

/-- Fixed-point literals: digits and a point where it is needed. -/
def positional : Format := ⟨false, false⟩

/-- `0.digits` times `10 ^ point`, without exponent. -/
def placed (f : Format) (digits : List Char) (point : Int) : List Char :=
  if point ≤ 0 then ['0', '.'] ++ List.replicate (-point).toNat '0' ++ digits
  else if point < digits.length then digits.take point.toNat ++ ['.'] ++ digits.drop point.toNat
  else digits ++ List.replicate (point.toNat - digits.length) '0' ++
    (if f.point then ['.', '0'] else [])

/-- One digit before the point, and the power of ten of that digit. -/
def scientific (digits : List Char) (point : Int) : List Char :=
  (match digits with
  | [] => []
  | [d] => [d]
  | d :: ds => d :: '.' :: ds) ++ 'e' :: (toString (point - 1)).toList

/-- A finite magnitude. -/
def magnitudeText (f : Format) (magnitude : Nat) : List Char :=
  if magnitude = 0 then (if f.point then ['0', '.', '0'] else ['0'])
  else
    let d := shortest magnitude
    let digits := Nat.toDigits 10 d.digits
    let point := digits.length + d.exponent
    if f.exponents && (16 < point || point < -3) then scientific digits point
    else placed f digits point

def textAs (f : Format) (x : Double) : String :=
  if x.isNaN then "NaN"
  else
    (if x.negative then "-" else "") ++
      (if x.isInfinite then "inf" else String.ofList (magnitudeText f x.magnitude))

/-- The text of a floating-point constant. -/
def text (x : Double) : String := textAs general x

/-- The text of a fixed-point constant, before its suffix. -/
def plainText (x : Double) : String := textAs positional x

end Idl.Double
