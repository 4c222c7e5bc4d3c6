/-!
Binary floating point of 64 bits, as the type `double` has it. Equality of `Double` is equality of
the bits; `sameNumber` is equality of the numbers.
-/

set_option autoImplicit false

namespace Idl

/-- A double by its bits: sign, eleven bits of exponent, fifty-two of fraction. -/
structure Double where
  bits : UInt64
deriving DecidableEq, Repr

namespace Double

def ofFloat (x : Float) : Double := ⟨x.toBits⟩

def toFloat (x : Double) : Float := Float.ofBits x.bits

instance : Add Double := ⟨fun x y => ofFloat (x.toFloat + y.toFloat)⟩

instance : Sub Double := ⟨fun x y => ofFloat (x.toFloat - y.toFloat)⟩

instance : Mul Double := ⟨fun x y => ofFloat (x.toFloat * y.toFloat)⟩

instance : Div Double := ⟨fun x y => ofFloat (x.toFloat / y.toFloat)⟩

instance : Neg Double := ⟨fun x => ⟨x.bits ^^^ 0x8000000000000000⟩⟩

/-- The sign bit is set. -/
def negative (x : Double) : Bool := x.bits ≥ 0x8000000000000000

/-- The weight of the sign. -/
def signBit : Nat := 0x8000000000000000

/-- The weight of the exponent's last bit. The fraction of a normal number stands for as many
units more. -/
def unitBit : Nat := 0x10000000000000

/-- The bits without the sign. -/
def magnitude (x : Double) : Nat := x.bits.toNat % signBit

/-- The magnitude of infinity: all ones in the exponent, nothing in the fraction. -/
def infinityBits : Nat := 0x7FF0000000000000

def isNaN (x : Double) : Bool := infinityBits < x.magnitude

def isInfinite (x : Double) : Bool := x.magnitude == infinityBits

def isZero (x : Double) : Bool := x.magnitude == 0

/-- The double with this sign and magnitude. -/
def ofMagnitude (negative : Bool) (magnitude : Nat) : Double :=
  ⟨UInt64.ofNat ((if negative then signBit else 0) + magnitude)⟩

def infinity (negative : Bool) : Double := ofMagnitude negative infinityBits

def nan : Double := ⟨0x7FF8000000000000⟩

/-- Equality of numbers: both zeros are one number, and no number is not a number. -/
def sameNumber (x y : Double) : Bool :=
  !x.isNaN && !y.isNaN && (x == y || (x.isZero && y.isZero))

/-- A finite magnitude as `m * 2 ^ (k - 1074)`. -/
def scaled (magnitude : Nat) : Nat × Nat :=
  let exponent := magnitude / unitBit
  let fraction := magnitude % unitBit
  if exponent = 0 then (fraction, 0) else (unitBit + fraction, exponent - 1)

end Double

end Idl
