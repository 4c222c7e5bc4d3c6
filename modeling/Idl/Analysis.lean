import Idl.Binding.Unit
import Idl.Layout.Build
import Idl.Rules.Unit
import Idl.Scope.Build

/-!
Analysis: all that a unit means. Each step goes on in spite of errors, so every unit has symbols
and layouts.
-/

set_option autoImplicit false

namespace Idl

structure Analysis where
  /-- The unit with its names bound and constants evaluated. -/
  specification : Specification
  symbols : SymbolTable
  model : TypeModel
  diagnostics : Diagnostics

/-- Analyses a unit. Under `strictForward` it is an error to announce a type and never define
it. -/
def analyze (strictForward : Bool) (s : Specification) : Analysis :=
  let scopes := buildScopes s
  let bound := bindUnit s scopes.table
  let breaches := breachesOf bound.specification bound.table
  { specification := bound.specification
    symbols := bound.table
    model := buildModel bound.specification bound.table
    diagnostics := Diagnostics.sorted
      (scopes.mismatches.map ForwardMismatch.diagnostic ++
        bound.errors.map BindingError.diagnostic ++
        breaches.map (Breach.diagnostic strictForward)) }

end Idl
