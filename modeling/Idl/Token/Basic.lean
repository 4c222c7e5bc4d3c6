import Idl.Span
import Idl.Token.Keyword

/-!
Tokens: a class, the text they were read from, and its place.
-/

set_option autoImplicit false

namespace Idl

/-- The class of a literal, known from its shape. -/
inductive LiteralKind
  | decimal
  | octal
  | hex
  | float
  | fixed
  | char
  | wchar
  | string
  | wstring
deriving DecidableEq, Repr

/-- What a literal of the class is, in messages. -/
def LiteralKind.noun : LiteralKind → String
  | .decimal | .octal | .hex => "integer literal"
  | .float => "floating-point literal"
  | .fixed => "fixed-point literal"
  | .char | .wchar => "character literal"
  | .string | .wstring => "string literal"

inductive Punct
  | semi
  | colon
  | colonColon
  | comma
  | leftBrace
  | rightBrace
  | leftParen
  | rightParen
  | leftBracket
  | rightBracket
  | less
  | greater
  | equals
  | plus
  | minus
  | star
  | slash
  | percent
  | tilde
  | pipe
  | caret
  | ampersand
  | atSign
deriving DecidableEq, Repr

namespace Punct

def text : Punct → String
  | .semi => ";"
  | .colon => ":"
  | .colonColon => "::"
  | .comma => ","
  | .leftBrace => "\x7b"
  | .rightBrace => "\x7d"
  | .leftParen => "("
  | .rightParen => ")"
  | .leftBracket => "["
  | .rightBracket => "]"
  | .less => "<"
  | .greater => ">"
  | .equals => "="
  | .plus => "+"
  | .minus => "-"
  | .star => "*"
  | .slash => "/"
  | .percent => "%"
  | .tilde => "~"
  | .pipe => "|"
  | .caret => "^"
  | .ampersand => "&"
  | .atSign => "@"

/-- The marks of one character. -/
def single : List Punct := [
  .semi, .colon, .comma, .leftBrace, .rightBrace, .leftParen, .rightParen, .leftBracket,
  .rightBracket, .less, .greater, .equals, .plus, .minus, .star, .slash, .percent, .tilde, .pipe,
  .caret, .ampersand, .atSign]

/-- All marks. -/
def all : List Punct := .colonColon :: single

/-- The mark that a text is, if it is one. -/
def ofText? (text : String) : Option Punct := all.find? (fun p => p.text == text)

theorem ofText?_text (p : Punct) : ofText? p.text = some p := by cases p <;> decide

end Punct

inductive TokenKind
  | ident
  | keyword (word : Keyword)
  | literal (kind : LiteralKind)
  | punct (mark : Punct)
  /-- Malformed text, reported where it was read. -/
  | invalid
  /-- The end of the text. -/
  | eof
deriving DecidableEq, Repr

/-- What a token of the class is, in messages. -/
def TokenKind.noun : TokenKind → String
  | .ident => "identifier"
  | .keyword word => "`" ++ word.text ++ "`"
  | .literal kind => kind.noun
  | .punct mark => "`" ++ mark.text ++ "`"
  | .invalid => "invalid token"
  | .eof => "end of input"

structure Token where
  kind : TokenKind
  lexeme : String
  span : Span
deriving DecidableEq, Repr

namespace Token

/-- What was found, in messages: identifiers and literals with their text. -/
def describe (t : Token) : String :=
  match t.kind with
  | .ident | .literal _ => t.kind.noun ++ " `" ++ t.lexeme ++ "`"
  | kind => kind.noun

/-- The parser reads the token: it is neither malformed text nor an end. -/
def isReadable (t : Token) : Bool := t.kind != .invalid && t.kind != .eof

end Token

end Idl
