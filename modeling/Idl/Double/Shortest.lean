import Idl.Double.Basic

/-!
The shortest decimal that reads back as a given double and, of those, the nearest to it.
-/

set_option autoImplicit false

namespace Idl.Double

/-- The numbers that round to a magnitude, in quarters of its unit in the last place:
`value`, with `low` and `high` around it and belonging to it when `closed`. -/
structure Neighbourhood where
  low : Nat
  value : Nat
  high : Nat
  closed : Bool
deriving DecidableEq, Repr

/-- Half a unit on either side, save below a power of two, where units are half as large. -/
def neighbourhood (magnitude : Nat) : Neighbourhood :=
  let (m, k) := scaled magnitude
  ⟨if m = unitBit && 0 < k then 4 * m - 1 else 4 * m - 2, 4 * m, 4 * m + 2, m % 2 == 0⟩

/-- `x * num / den` lies in the neighbourhood. -/
def Neighbourhood.holds (n : Neighbourhood) (num den x : Nat) : Bool :=
  if n.closed then n.low * den ≤ x * num && x * num ≤ n.high * den
  else n.low * den < x * num && x * num < n.high * den

/-- Of the two multiples of `num / den` around the value, the one that lies in the neighbourhood;
of two such the nearer, and the upper of two as near. -/
def Neighbourhood.onGrid? (n : Neighbourhood) (num den : Nat) : Option Nat :=
  let below := n.value * den / num
  let above := below + 1
  match n.holds num den below, n.holds num den above with
  | true, true =>
    if n.value * den - below * num < above * num - n.value * den then some below else some above
  | true, false => some below
  | false, true => some above
  | false, false => none

/-- The first `j` from `start` on, among `fuel` of them, with `den ≤ num * 10 ^ j`. -/
def leastShift (num den start : Nat) : Nat → Nat
  | 0 => start
  | fuel + 1 => if den ≤ num * Nat.pow 10 start then start else leastShift num den (start + 1) fuel

/-- The power of ten of the first digit of `num / den`. -/
def leadingPower (num den : Nat) : Int :=
  if den ≤ num then (Nat.toDigits 10 (num / den)).length - 1
  else -(leastShift num den 1 400 : Int)

/-- Digits and a power of ten. -/
structure Decimal where
  digits : Nat
  exponent : Int
deriving DecidableEq, Repr

/-- Without zeros at the end, at most `fuel` of them. -/
def Decimal.trimmed (d : Decimal) : Nat → Decimal
  | 0 => d
  | fuel + 1 =>
    if d.digits % 10 = 0 && d.digits ≠ 0 then Decimal.trimmed ⟨d.digits / 10, d.exponent + 1⟩ fuel
    else d

/-- The grid of decimals with `count` digits, then finer ones, until one has a point in the
neighbourhood. Seventeen digits tell any two doubles apart. -/
def searchShortest (n : Neighbourhood) (k : Nat) (power : Int) (count : Nat) : Nat → Decimal
  | 0 => ⟨0, 0⟩
  | fuel + 1 =>
    let step := power + 1 - count
    -- the step over a quarter of a unit, `10 ^ step / 2 ^ (k - 1076)`
    let num := Nat.pow 10 step.toNat <<< (1076 - k)
    let den := Nat.pow 10 (-step).toNat <<< (k - 1076)
    match n.onGrid? num den with
    | some x => Decimal.trimmed ⟨x, step⟩ 17
    | none => searchShortest n k power (count + 1) fuel

/-- The shortest decimal of a finite magnitude other than zero. -/
def shortest (magnitude : Nat) : Decimal :=
  let (m, k) := scaled magnitude
  let power := leadingPower (m <<< (k - 1074)) (1 <<< (1074 - k))
  searchShortest (neighbourhood magnitude) k power 1 17

end Idl.Double
