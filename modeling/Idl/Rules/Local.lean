import Idl.Layout.Bits
import Idl.Rules.Violation

/-!
The rules that a declaration keeps or breaks by itself: distinct names and labels, positive sizes,
widths and positions within their limits.
-/

set_option autoImplicit false

namespace Idl.Rules

abbrev Breaches := List Breach

/-- Names that stood before with another place. -/
def duplicates (violation : Ident → Span → Violation) (seen : List Ident) : List Ident → Breaches
  | [] => []
  | name :: rest =>
    match seen.find? (·.name == name.name) with
    | some previous =>
      ⟨violation name previous.span, name.span⟩ :: duplicates violation seen rest
    | none => duplicates violation (seen ++ [name]) rest

/-- The names of one owner are distinct. -/
def uniqueMembers (ownerNoun : String) (owner : Ident) (names : List Ident) : Breaches :=
  duplicates (fun name previous => .duplicateMember name.name owner.name ownerNoun previous) []
    names

def memberNames (members : List (Member TypeSpec)) : List Ident :=
  members.flatMap fun m => m.declarators.map (·.name)

def intValue? (e : ConstExpr) : Option Int := e.value.bind (·.value.int?)

/-- A size is positive. One that was not evaluated was reported then. -/
def positive (noun : String) (e : ConstExpr) : Breaches :=
  match intValue? e with
  | some v => if v ≤ 0 then [⟨.notPositive noun v, e.span⟩] else []
  | none => []

def positive? (noun : String) (e : Option ConstExpr) : Breaches :=
  e.toList.flatMap (positive noun)

def dims (d : Declarator) : Breaches := d.dims.flatMap (positive "array dimension")

/-- Digits and scale of a fixed-point type are within their limits; the scale only matters beside
good digits. -/
def fixedArgs (digits scale : ConstExpr) : Breaches :=
  match intValue? digits with
  | none => []
  | some d =>
    if d < 1 ∨ maxFixedDigits < d then [⟨.fixedDigits d, digits.span⟩]
    else
      match intValue? scale with
      | some s => if s < 0 ∨ d < s then [⟨.fixedScale s d, scale.span⟩] else []
      | none => []

/-- The bit bound among annotations, with the place of its annotation: nothing if there is none or
it is out of range, which is then reported. -/
def bitBound (annotations : List AnnotationUse) (max : Int) : Option (Int × Span) × Breaches :=
  match findAnnotation? annotations "bit_bound", annotationInt? annotations "bit_bound" with
  | some a, some bound =>
    if 1 ≤ bound ∧ bound ≤ max then (some (bound, a.span), [])
    else (none, [⟨.bitBound bound max, a.span⟩])
  | _, _ => (none, [])

/-- The enumerators fit the bit bound. -/
def enumType (annotations : List AnnotationUse) (t : EnumType) : Breaches :=
  match bitBound annotations maxEnumBits with
  | (some (bound, span), breaches) =>
    let count := t.enumerators.length
    if 1 <<< bound.toNat < count then
      breaches ++ [⟨.tooManyEnumerators t.name.name count bound, span⟩]
    else breaches
  | (none, breaches) => breaches

/-- Positions below the bound and taken once. -/
def positions (bitmask : Ident) (bound : Int) (used : List (Int × Ident)) :
    List (Enumerator × Int) → Breaches
  | [] => []
  | (flag, position) :: rest =>
    if position < 0 ∨ bound ≤ position then
      ⟨.positionOutside flag.name.name bitmask.name position bound, flag.name.span⟩ ::
        positions bitmask bound used rest
    else
      match used.lookup position with
      | some previous =>
        ⟨.positionTaken flag.name.name previous.name bitmask.name position, flag.name.span⟩ ::
          positions bitmask bound used rest
      | none => positions bitmask bound ((position, flag.name) :: used) rest

/-- The bits of a bitmask without a bit bound. -/
def defaultBitBound : Int := 32

/-- The flags of a bitmask fit its bit bound; next to a bad bound they are not looked at. -/
def bitmaskType (annotations : List AnnotationUse) (t : BitmaskType) : Breaches :=
  let names := uniqueMembers "bitmask" t.name (t.values.map (·.name))
  let flags := t.values.zip (flagPositions 0 t.values)
  match bitBound annotations maxBits with
  | (some (bound, _), breaches) => names ++ breaches ++ positions t.name bound [] flags
  | (none, breaches) =>
    if (findAnnotation? annotations "bit_bound").isSome then names ++ breaches
    else names ++ breaches ++ positions t.name defaultBitBound [] flags

/-- The widest that a bitfield of a type may be. -/
def maxWidth (type : Option Primitive) : Int :=
  match type.bind Primitive.bitWidth? with
  | some width => width
  | none => maxBits

/-- What a bitfield adds to the width of its bitset, and whether its own width is in range. -/
def bitfieldWidth (f : Bitfield) : Int × Breaches :=
  match intValue? f.width with
  | none => (0, [])
  | some width =>
    if 1 ≤ width ∧ width ≤ maxWidth f.type then (width, [])
    else (0, [⟨.bitfieldWidth width (maxWidth f.type), f.width.span⟩])

/-- The labels of a union with their places, and the place of the first default. -/
structure Labels where
  values : List (ConstValue × Span)
  default : Option Span

/-- Labels are distinct, and one at most is the default. -/
def caseLabels (union : Ident) (seen : Labels) : List CaseLabel → Labels × Breaches
  | [] => (seen, [])
  | .value e :: rest =>
    match e.value with
    | none => caseLabels union seen rest
    | some constant =>
      match seen.values.lookup constant.value with
      | some previous =>
        let (labels, breaches) := caseLabels union seen rest
        (labels, ⟨.duplicateLabel constant.value union.name previous, e.span⟩ :: breaches)
      | none =>
        caseLabels union { seen with values := seen.values ++ [(constant.value, e.span)] } rest
  | .default span :: rest =>
    match seen.default with
    | some previous =>
      let (labels, breaches) := caseLabels union seen rest
      (labels, ⟨.duplicateDefault union.name previous, span⟩ :: breaches)
    | none => caseLabels union { seen with default := some span } rest

end Idl.Rules
