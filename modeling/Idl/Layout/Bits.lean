import Idl.Syntax.Type

/-!
Numbers that annotations and positions give to bits.
-/

set_option autoImplicit false

namespace Idl

/-- The evaluated integer argument of the first annotation of a name. -/
def annotationInt? (annotations : List AnnotationUse) (name : String) : Option Int := do
  let a ← findAnnotation? annotations name
  let e ← a.value?
  let constant ← e.value
  constant.value.int?

/-- The positions of flags: the one annotated or, without one, one past the flag before. -/
def flagPositions (next : Int) : List Enumerator → List Int
  | [] => []
  | v :: vs =>
    let position := (annotationInt? v.annotations "position").getD next
    position :: flagPositions (position + 1) vs

@[simp] theorem length_flagPositions (next : Int) (vs : List Enumerator) :
    (flagPositions next vs).length = vs.length := by
  induction vs generalizing next with
  | nil => rfl
  | cons v vs ih => simp [flagPositions, ih]

end Idl
