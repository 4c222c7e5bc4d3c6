import Idl.Diagnostic
import Idl.Token.Lexeme

/-!
Reading a list of tokens: the state of a reader, the errors it meets, and the ways to look at, take
and repeat.
-/

set_option autoImplicit false

namespace Idl

/-- Why tokens fit no rule of the grammar. -/
inductive SyntaxError
  | expected (what : String) (found : Token)
  | tooDeep (limit : Nat) (span : Span)
  | badLiteral (token : Token) (reason : LiteralFault)
deriving DecidableEq, Repr

namespace SyntaxError

def span : SyntaxError → Span
  | .expected _ found => found.span
  | .tooDeep _ s => s
  | .badLiteral t _ => t.span

def message : SyntaxError → String
  | .expected what found => "expected " ++ what ++ ", found " ++ found.describe
  | .tooDeep limit _ => s!"nesting exceeds the limit of {limit} levels"
  | .badLiteral t reason => "invalid literal `" ++ t.lexeme ++ "`: " ++ reason.message

def diagnostic (e : SyntaxError) : Diagnostic := ⟨.error, .grammar, e.message, e.span⟩

end SyntaxError

namespace Grammar

/-- The state of a reader. -/
structure Cursor where
  /-- Tokens not yet taken. -/
  rest : List Token
  /-- The place behind the last token. -/
  ending : Span
  /-- The place of the token taken last. -/
  previous : Span
  /-- Braces open among the tokens taken. -/
  braces : Nat
  /-- Binary operators of the constant expression being read. -/
  operators : Nat
  /-- Errors of abandoned items, in order. -/
  errors : List SyntaxError

namespace Cursor

/-- A reader in front of `tokens`. Tokens that are not readable are passed over. -/
def ofTokens (tokens : List Token) : Cursor where
  rest := tokens.filter (·.isReadable)
  ending := match tokens.getLast? with
    | some t => ⟨t.span.stop, 0, t.span.line, t.span.column + t.span.len⟩
    | none => Span.empty
  previous := Span.empty
  braces := 0
  operators := 0
  errors := []

/-- The token `n` places ahead, or the end. -/
def nth (s : Cursor) (n : Nat) : Token := s.rest[n]?.getD ⟨.eof, "", s.ending⟩

def peek (s : Cursor) : Token := s.nth 0

def kind (s : Cursor) : TokenKind := s.peek.kind

def at? (s : Cursor) (mark : Punct) : Bool := s.kind == .punct mark

def atKeyword (s : Cursor) (word : Keyword) : Bool := s.kind == .keyword word

def atEnd (s : Cursor) : Bool := s.rest.isEmpty

/-- Past one token; at the end, nowhere. A closing brace without an open one closes nothing. -/
def bump (s : Cursor) : Cursor :=
  match s.rest with
  | [] => s
  | t :: ts =>
    { s with
      rest := ts
      previous := t.span
      braces :=
        if t.kind = .punct .leftBrace then s.braces + 1
        else if t.kind = .punct .rightBrace then s.braces - 1
        else s.braces }

def report (s : Cursor) (e : SyntaxError) : Cursor := { s with errors := s.errors ++ [e] }

/-- From `start` to the token taken last. -/
def spanFrom (s : Cursor) (start : Span) : Span := start.join s.previous

theorem rest_bump (s : Cursor) : s.bump.rest = s.rest.tail := by
  unfold bump; split <;> simp_all

/-- Past the semicolon that ends the statement at brace depth `depth`, or up to the brace that
closes the scope around it. At depth zero no brace closes anything. -/
def recover (depth : Nat) (s : Cursor) : Cursor :=
  match _rest : s.rest with
  | [] => s
  | t :: _ =>
    if t.kind = .punct .semi ∧ s.braces = depth then s.bump
    else if t.kind = .punct .rightBrace ∧ s.braces = depth ∧ 0 < depth then s
    else recover depth s.bump
termination_by s.rest.length
decreasing_by simp [rest_bump, _rest]

end Cursor

/-- A reader of an `α`. It fails at the first token that does not fit; the state stays where the
failure left it. -/
abbrev Parser (α : Type) : Type := EStateM SyntaxError Cursor α

/-- What a reader leaves behind. -/
abbrev Outcome (α : Type) : Type := EStateM.Result SyntaxError Cursor α

/-- How deep a reader may still go. -/
structure Level where
  /-- The limit on nesting, for messages. -/
  limit : Nat
  /-- The levels below this one that are still allowed. -/
  left : Nat
  /-- Within template arguments, where two closing angles end two lists. -/
  inTemplate : Bool

variable {α : Type}

def expected (what : String) : Parser α := fun s => .error (.expected what s.peek) s

def tooDeep (limit : Nat) : Parser α := fun s => .error (.tooDeep limit s.peek.span) s

/-- Takes a token. -/
def bump : Parser Token := fun s => .ok s.peek s.bump

/-- The kind of the next token. -/
def kind : Parser TokenKind := fun s => .ok s.kind s

def test (p : Cursor → Bool) : Parser Bool := fun s => .ok (p s) s

/-- The place of the next token. -/
def here : Parser Span := fun s => .ok s.peek.span s

/-- From `start` to the token taken last. -/
def spanFrom (start : Span) : Parser Span := fun s => .ok (s.spanFrom start) s

/-- Takes the mark if it is next. -/
def eat (mark : Punct) : Parser Bool := fun s =>
  if s.at? mark then .ok true s.bump else .ok false s

def eatKeyword (word : Keyword) : Parser Bool := fun s =>
  if s.atKeyword word then .ok true s.bump else .ok false s

/-- Takes the mark, which has to be next. -/
def expect (mark : Punct) : Parser Span := fun s =>
  if s.at? mark then .ok s.peek.span s.bump else expected ("`" ++ mark.text ++ "`") s

def expectKeyword (word : Keyword) : Parser Span := fun s =>
  if s.atKeyword word then .ok s.peek.span s.bump else expected ("`" ++ word.text ++ "`") s

/-- Reads items until `stop` holds. An item that takes no token is the last one. -/
def many (stop : Cursor → Bool) (item : Parser α) (s : Cursor) : Outcome (List α) :=
  if stop s then .ok [] s
  else
    match item s with
    | .error e t => .error e t
    | .ok a t =>
      if t.rest.length < s.rest.length then
        match many stop item t with
        | .ok more u => .ok (a :: more) u
        | .error e u => .error e u
      else .ok [a] t
termination_by s.rest.length

/-- An item after each `mark` that is next. -/
def manyAfter (mark : Punct) (item : Parser α) : Parser (List α) :=
  many (fun s => !s.at? mark) do
    discard (expect mark)
    item

/-- One item or more, with commas between them. -/
def commaList (item : Parser α) : Parser (List α) := do
  let first ← item
  return first :: (← manyAfter .comma item)

/-- The scope ends here: at a closing brace, or with the text. -/
def atClose (s : Cursor) : Bool := s.at? .rightBrace || s.atEnd

/-- After a failed item that began at `s`: reports the error and finds the next item, at least one
token further. -/
def resume (s : Cursor) (e : SyntaxError) (failed : Cursor) : Cursor :=
  let t := (failed.report e).recover s.braces
  if t.rest.length = s.rest.length then t.bump else t

/-- Reads items until `stop` holds. An item that fails is reported and left out. -/
def itemList (stop : Cursor → Bool) (item : Parser α) (s : Cursor) : List α × Cursor :=
  if stop s then ([], s)
  else
    match item s with
    | .ok a t =>
      if t.rest.length < s.rest.length then
        let (more, u) := itemList stop item t
        (a :: more, u)
      else ([a], t)
    | .error e failed =>
      let t := resume s e failed
      if t.rest.length < s.rest.length then itemList stop item t else ([], t)
termination_by s.rest.length

/-- The items of a body, up to its closing brace or the end. -/
def bodyItems (item : Parser α) : Parser (List α) := fun s =>
  let (items, t) := itemList atClose item s
  .ok items t

end Grammar

end Idl
