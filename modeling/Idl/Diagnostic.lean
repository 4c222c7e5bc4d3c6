import Idl.Span

/-!
Reports about a source text: how grave, from which phase, what and where.
-/

set_option autoImplicit false

namespace Idl

inductive Severity
  | error
  | warning
deriving DecidableEq, Repr

def Severity.word : Severity → String
  | .error => "error"
  | .warning => "warning"

/-- The phase that noticed the fault: characters, grammar or meaning. -/
inductive Phase
  | lexical
  | grammar
  | semantic
deriving DecidableEq, Repr

def Phase.word : Phase → String
  | .lexical => "lex"
  | .grammar => "syntax"
  | .semantic => "semantic"

structure Diagnostic where
  severity : Severity
  phase : Phase
  message : String
  span : Span
deriving DecidableEq, Repr

namespace Diagnostic

def isError (d : Diagnostic) : Bool := d.severity == .error

/-- Severity, phase and message, without the place. -/
def headline (d : Diagnostic) : String :=
  d.severity.word ++ "[" ++ d.phase.word ++ "]: " ++ d.message

/-- The one-line form with the place before the message. -/
def text (d : Diagnostic) : String :=
  d.severity.word ++ "[" ++ d.phase.word ++ "] " ++ d.span.text ++ ": " ++ d.message

end Diagnostic

/-- The diagnostics of one document, in the order they were noticed or, once sorted, of the
document. -/
abbrev Diagnostics := List Diagnostic

namespace Diagnostics

def errors (ds : Diagnostics) : Diagnostics := ds.filter (·.isError)

def warnings (ds : Diagnostics) : Diagnostics := ds.filter (fun d => !d.isError)

def hasErrors (ds : Diagnostics) : Bool := ds.any (·.isError)

def errorCount (ds : Diagnostics) : Nat := ds.errors.length

def warningCount (ds : Diagnostics) : Nat := ds.warnings.length

/-- Document order. Diagnostics at one offset keep their order. -/
def sorted (ds : Diagnostics) : Diagnostics :=
  ds.mergeSort (fun a b => a.span.offset ≤ b.span.offset)

theorem sorted_perm (ds : Diagnostics) : ds.sorted.Perm ds := List.mergeSort_perm ds _

theorem hasErrors_eq_false_iff (ds : Diagnostics) : ds.hasErrors = false ↔ ds.errors = [] := by
  simp [hasErrors, errors]

end Diagnostics

end Idl
