import Idl.Diagnostic
import Idl.Token.Lexeme
import Idl.Token.Shape

/-!
Tokens of a text. Blanks, comments and directives lie between tokens; text that is malformed
becomes an invalid token with its fault, and reading goes on behind it.
-/

set_option autoImplicit false

namespace Idl

/-- What is wrong with a stretch of text. -/
inductive LexFault
  | unrecognized (c : Char)
  | openComment
  | openString
  | openChar
  | malformed (noun : String) (lexeme : String) (reason : LiteralFault)
deriving DecidableEq, Repr

structure LexError where
  fault : LexFault
  span : Span
deriving DecidableEq, Repr

def LexFault.message : LexFault → String
  | .unrecognized c => "unrecognized character `" ++ c.toString ++ "`"
  | .openComment => "unterminated block comment"
  | .openString => "unterminated string literal"
  | .openChar => "unterminated character literal"
  | .malformed noun lexeme reason =>
    "malformed " ++ noun ++ " literal `" ++ lexeme ++ "`: " ++ reason.message

def LexError.diagnostic (e : LexError) : Diagnostic :=
  ⟨.error, .lexical, e.fault.message, e.span⟩

namespace Lexer

/-- What a text begins with. It covers the first character and `more` after it, and an unclosed
comment all of the text. -/
inductive Piece
  | gap (more : Nat)
  | unclosed
  | token (kind : TokenKind) (more : Nat) (fault : Option LexFault)
deriving DecidableEq, Repr

/-- A literal of `count` characters, which has to have a value. -/
def literal (kind : LiteralKind) (noun : String) (count : Nat) (cs : List Char) : Piece :=
  let lexeme := cs.take count
  match Lexeme.fault? kind lexeme with
  | none => .token (.literal kind) (count - 1) none
  | some reason =>
    .token .invalid (count - 1) (some (.malformed noun (String.ofList lexeme) reason))

/-- A number. Whatever could continue a word belongs to it, and makes it malformed. -/
def number (kind : LiteralKind) (count : Nat) (cs : List Char) : Piece :=
  let trailing := Shape.run Shape.continuesWord (cs.drop count)
  if trailing = 0 then literal kind "numeric" count cs
  else
    let lexeme := String.ofList (cs.take (count + trailing))
    .token .invalid (count + trailing - 1) (some (.malformed "numeric" lexeme .trailingText))

/-- A character or string literal whose body starts after `start` characters. One that its line
does not close covers the rest of the line. -/
def quoted (wide : Bool) (quote : Char) (cs : List Char) : Piece :=
  let start := if wide then 2 else 1
  match Shape.closing? quote (cs.drop start) with
  | none =>
    .token .invalid (Shape.restOfLine cs - 1)
      (some (if quote = '"' then .openString else .openChar))
  | some count =>
    if quote = '"' then literal (if wide then .wstring else .string) "string" (start + count) cs
    else literal (if wide then .wchar else .char) "character" (start + count) cs

/-- The token at the front of a text that no blank, comment or directive starts. -/
def token (c : Char) (cs : List Char) : Piece :=
  let text := c :: cs
  let next := cs.head?
  if c = 'L' && next = some '\'' then quoted true '\'' text
  else if c = '\'' then quoted false '\'' text
  else if c = 'L' && next = some '"' then quoted true '"' text
  else if c = '"' then quoted false '"' text
  else
    match Shape.ident? text with
    | some count =>
      let kind := match Keyword.ofText? (String.ofList (text.take count)) with
        | some word => .keyword word
        | none => .ident
      .token kind (count - 1) none
    | none =>
      match Shape.number? text with
      | some (kind, count) => number kind count text
      | none =>
        match Shape.punct? text with
        | some (mark, count) => .token (.punct mark) (count - 1) none
        | none => .token .invalid 0 (some (.unrecognized c))

/-- What a text begins with; a directive only begins where its line has had no token yet. -/
def piece (lineStart : Bool) (c : Char) (cs : List Char) : Piece :=
  if Text.isBlank c then .gap 0
  else if c = '#' && lineStart then .gap (Shape.directive (c :: cs) - 1)
  else
    match Shape.lineComment? (c :: cs) with
    | some count => .gap (count - 1)
    | none =>
      if c = '/' && cs.head? = some '*' then
        match Shape.commentEnd? cs.tail with
        | some count => .gap (1 + count)
        | none => .unclosed
      else token c cs

/-- What a text consists of, apart from its gaps. -/
inductive Item
  | token (token : Token) (fault : Option LexFault)
  | openComment (span : Span)
deriving DecidableEq, Repr

def Item.token? : Item → Option Token
  | .token t _ => some t
  | .openComment _ => none

def Item.error? : Item → Option LexError
  | .token t fault => fault.map (⟨·, t.span⟩)
  | .openComment span => some ⟨.openComment, span⟩

/-- The items of a text, where `p` is the place of its first character. -/
def scan (p : Place) (lineStart : Bool) : List Char → List Item
  | [] => []
  | c :: cs =>
    match piece lineStart c cs with
    | .gap more =>
      let skipped := c :: cs.take more
      scan (p.past skipped) (lineStart || skipped.contains '\n') (cs.drop more)
    | .unclosed => [.openComment ⟨p.offset, 2, p.line, p.column⟩]
    | .token kind more fault =>
      let lexeme := c :: cs.take more
      .token ⟨kind, String.ofList lexeme, p.spanOf lexeme⟩ fault ::
        scan (p.past lexeme) (lexeme.contains '\n') (cs.drop more)
termination_by cs => cs.length
decreasing_by
  all_goals simp only [List.length_drop, List.length_cons]; omega

end Lexer

/-- The tokens of a text, the last one its end, and the faults met on the way. -/
structure Lexed where
  tokens : List Token
  errors : List LexError
deriving DecidableEq, Repr

/-- The token at the end of a text. -/
def endToken (cs : List Char) : Token :=
  ⟨.eof, "", (Place.start.past cs).spanOf []⟩

def tokenize (text : String) : Lexed :=
  let items := Lexer.scan Place.start true text.toList
  ⟨items.filterMap Lexer.Item.token? ++ [endToken text.toList],
    items.filterMap Lexer.Item.error?⟩

end Idl
