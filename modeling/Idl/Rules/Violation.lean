import Idl.Const.Value
import Idl.Diagnostic
import Idl.Scope.Symbol

/-!
What breaks a rule, and what is said of it.
-/

set_option autoImplicit false

namespace Idl

/-- What breaks a rule. -/
inductive Violation
  | redeclared (name : String) (scope : Option String) (previous : Span)
  | dangling (kind : SymbolKind) (name : String)
  | duplicateMember (name owner : String) (ownerNoun : String) (previous : Span)
  | duplicateLabel (value : ConstValue) (union : String) (previous : Span)
  | duplicateDefault (union : String) (previous : Span)
  | badDiscriminant (type union : String)
  | tooManyEnumerators (enum : String) (count : Nat) (bound : Int)
  | positionOutside (flag bitmask : String) (position bound : Int)
  | positionTaken (flag previous bitmask : String) (position : Int)
  | bitfieldWidth (width max : Int)
  | bitsetWidth (bitset : String) (total : Int)
  | bitBound (bound max : Int)
  | fixedDigits (digits : Int)
  | fixedScale (scale digits : Int)
  | notPositive (noun : String) (value : Int)
deriving DecidableEq, Repr

/-- The most bits of a bitset or bitmask. -/
def maxBits : Int := 64

/-- The most bits of an enum. -/
def maxEnumBits : Int := 32

/-- The most digits of a fixed-point type. -/
def maxFixedDigits : Int := 31

def Violation.message : Violation → String
  | .redeclared name scope previous =>
    let place := match scope with
      | some scope => "`" ++ scope ++ "`"
      | none => "the global scope"
    "duplicate identifier `" ++ name ++ "` in " ++ place ++ " (previous declaration at " ++
      previous.text ++ ")"
  | .dangling kind name => kind.noun ++ " `" ++ name ++ "` is forward-declared but never defined"
  | .duplicateMember name owner ownerNoun previous =>
    "duplicate member `" ++ name ++ "` in " ++ ownerNoun ++ " `" ++ owner ++
      "` (previous declaration at " ++ previous.text ++ ")"
  | .duplicateLabel value union previous =>
    "duplicate case label `" ++ value.text ++ "` in union `" ++ union ++ "` (previous label at " ++
      previous.text ++ ")"
  | .duplicateDefault union previous =>
    "union `" ++ union ++ "` has more than one default case (previous at " ++ previous.text ++ ")"
  | .badDiscriminant type union =>
    "`" ++ type ++ "` cannot discriminate union `" ++ union ++
      "`; use an integer, char, wchar, boolean, octet or enum type"
  | .tooManyEnumerators enum count bound =>
    "enum `" ++ enum ++ "` has " ++ toString count ++ " enumerators, more than @bit_bound(" ++
      toString bound ++ ") can hold"
  | .positionOutside flag bitmask position bound =>
    "position " ++ toString position ++ " of `" ++ flag ++ "` is outside bitmask `" ++ bitmask ++
      "` (bit bound " ++ toString bound ++ ")"
  | .positionTaken flag previous bitmask position =>
    "`" ++ previous ++ "` and `" ++ flag ++ "` both use bit " ++ toString position ++
      " of bitmask `" ++ bitmask ++ "`"
  | .bitfieldWidth width max =>
    "bitfield width " ++ toString width ++ " is out of range 1..=" ++ toString max
  | .bitsetWidth bitset total =>
    "bitset `" ++ bitset ++ "` spans " ++ toString total ++ " bits, more than " ++ toString maxBits
  | .bitBound bound max =>
    "@bit_bound(" ++ toString bound ++ ") is out of range 1..=" ++ toString max
  | .fixedDigits digits =>
    "fixed-point digits must be in 1..=" ++ toString maxFixedDigits ++ ", found " ++ toString digits
  | .fixedScale scale digits =>
    "fixed-point scale must be in 0..=" ++ toString digits ++ ", found " ++ toString scale
  | .notPositive noun value => noun ++ " must be positive, found " ++ toString value

/-- How grave a violation is. -/
def Violation.severity (strictForward : Bool) : Violation → Severity
  | .dangling _ _ => if strictForward then .error else .warning
  | _ => .error

/-- A violation at its place. -/
structure Breach where
  violation : Violation
  span : Span
deriving DecidableEq, Repr

def Breach.diagnostic (strictForward : Bool) (b : Breach) : Diagnostic :=
  ⟨b.violation.severity strictForward, .semantic, b.violation.message, b.span⟩

end Idl
