import Idl.Grammar.Definition
import Idl.Token.Lexer

/-!
Parsing of a text: lexing and parsing, with the faults of both in document order.
-/

set_option autoImplicit false

namespace Idl

/-- The levels of nesting that a unit may have unless another limit is given. -/
def defaultNesting : Nat := 256

/-- A parsed text. -/
structure ParsedText where
  specification : Specification
  diagnostics : Diagnostics
  tokenCount : Nat

def parseText (limit : Nat) (text : String) : ParsedText :=
  let lexed := tokenize text
  let parsed := parseTokens limit lexed.tokens
  ⟨parsed.specification,
    Diagnostics.sorted
      (lexed.errors.map LexError.diagnostic ++ parsed.errors.map SyntaxError.diagnostic),
    lexed.tokens.length⟩

end Idl
