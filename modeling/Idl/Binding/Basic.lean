import Idl.Const.Eval
import Idl.Diagnostic

/-!
Why names do not bind and constants have no value, and the state that a walk over a tree keeps.
-/

set_option autoImplicit false

namespace Idl

/-- Why a tree could not be bound throughout. -/
inductive BindingFault
  | lookup (error : LookupError)
  | notType (name : String) (kind : SymbolKind) (declared : Span)
  | badBase (kind : SymbolKind) (owner : String) (found : SymbolKind) (base : String)
  | badConstType (type : String) (name : String)
  | eval (fault : EvalFault)
deriving DecidableEq, Repr

def BindingFault.message : BindingFault → String
  | .lookup error => error.message
  | .notType name kind declared =>
    "`" ++ name ++ "` is not a type (" ++ kind.noun ++ " declared at " ++ declared.text ++ ")"
  | .badBase kind owner found base =>
    "base of " ++ kind.noun ++ " `" ++ owner ++ "` must be a " ++ kind.noun ++ ", found " ++
      found.noun ++ " `" ++ base ++ "`"
  | .badConstType type name => "`" ++ type ++ "` is not a valid type for constant `" ++ name ++ "`"
  | .eval fault => fault.message

structure BindingError where
  fault : BindingFault
  span : Span
deriving DecidableEq, Repr

def BindingError.diagnostic (e : BindingError) : Diagnostic :=
  ⟨.error, .semantic, e.fault.message, e.span⟩

/-- The symbol table while a tree is bound, and the errors so far. -/
structure Binding where
  table : SymbolTable
  errors : List BindingError

namespace Binding

abbrev BindM : Type → Type := StateM Binding

def report (fault : BindingFault) (span : Span) : BindM Unit :=
  modify fun b => { b with errors := b.errors ++ [⟨fault, span⟩] }

def table? {α : Type} (f : SymbolTable → α) : BindM α := return f (← get).table

/-- The symbol that an identifier defines. -/
def defined? (name : Ident) : BindM (Option SymbolId) := table? (·.definedAt? name.span)

/-- The scope that an identifier opens or, failing that, the one it stands in. -/
def scopeOf (name : Ident) (outer : SymbolId) : BindM SymbolId :=
  return (← defined? name).getD outer

end Binding

end Idl
