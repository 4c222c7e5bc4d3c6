import Idl.Grammar.Expr
import Idl.Proofs.Grammar.Accepts

/-!
Constant expressions rendered as tokens, with parentheses at least where the levels of the operators
require them, and how names and literals are read back. Main statements: `accepts_name` and
`accepts_literal`.
-/

set_option autoImplicit false

namespace Idl

/-! What is left of an expression without its places. -/

def Ident.unplaced (i : Ident) : Ident := ⟨i.name, .empty⟩

def ScopedName.unplaced (n : ScopedName) : ScopedName :=
  ⟨n.absolute, n.first.unplaced, n.more.map Ident.unplaced, .empty⟩

def ConstExpr.unplaced : ConstExpr → ConstExpr
  | .binary op left right _ value => .binary op left.unplaced right.unplaced .empty value
  | .unary op operand _ value => .unary op operand.unplaced .empty value
  | .literal l _ value => .literal l .empty value
  | .name n _ value => .name n.unplaced .empty value

theorem ConstExpr.unplaced_of_joined {left right : ConstExpr} (op : BinaryOp)
    {left' right' : ConstExpr} (first : left'.unplaced = left.unplaced)
    (second : right'.unplaced = right.unplaced) (span : Span) :
    (Grammar.joined left' (op, right')).unplaced =
      (ConstExpr.binary op left right span none).unplaced := by
  rw [Grammar.joined, ConstExpr.unplaced, ConstExpr.unplaced, first, second]

/-! Operators. -/

/-- The level of an operator: the tighter it binds, the higher. -/
def BinaryOp.strength : BinaryOp → Nat
  | .or => 0
  | .xor => 1
  | .and => 2
  | .shl | .shr => 3
  | .add | .sub => 4
  | .mul | .div | .mod => 5

theorem BinaryOp.strength_lt (op : BinaryOp) : op.strength < 6 := by cases op <;> decide

/-- The mark that the operator is made of. -/
def BinaryOp.mark : BinaryOp → Punct
  | .or => .pipe
  | .xor => .caret
  | .and => .ampersand
  | .shl => .less
  | .shr => .greater
  | .add => .plus
  | .sub => .minus
  | .mul => .star
  | .div => .slash
  | .mod => .percent

theorem BinaryOp.mark_injective {op op' : BinaryOp} (same : op.mark = op'.mark) : op = op' := by
  cases op <;> cases op' <;> simp_all [BinaryOp.mark]

def UnaryOp.mark : UnaryOp → Punct
  | .plus => .plus
  | .minus => .minus
  | .not => .tilde

namespace Grammar

/-- The tokens of an operator. A shift is two angles without a gap between them. -/
inductive SpellsOp (op : BinaryOp) : List Token → Prop
  | one {t : Token} (single : op ≠ .shl ∧ op ≠ .shr) (kind : t.kind = .punct op.mark) :
    SpellsOp op [t]
  | two {t u : Token} (shift : op = .shl ∨ op = .shr) (first : t.kind = .punct op.mark)
    (second : u.kind = .punct op.mark) (adjacent : t.span.adjacent u.span = true) :
    SpellsOp op [t, u]

/-! Names and literals. -/

/-- The token is the identifier. -/
structure Names (t : Token) (i : Ident) : Prop where
  kind : t.kind = .ident
  lexeme : t.lexeme = i.name

/-- The tokens of a segment behind the first one. -/
inductive SpellsSegment (i : Ident) : List Token → Prop
  | intro {mark t : Token} (colons : mark.kind = .punct .colonColon) (names : Names t i) :
    SpellsSegment i [mark, t]

/-- The tokens of a name. -/
inductive SpellsName (n : ScopedName) : List Token → Prop
  | absolute {mark t : Token} {groups : List (List Token)} (absolute : n.absolute = true)
    (colons : mark.kind = .punct .colonColon) (first : Names t n.first)
    (more : List.Forall₂ SpellsSegment n.more groups) : SpellsName n (mark :: t :: groups.flatten)
  | relative {t : Token} {groups : List (List Token)} (relative : n.absolute = false)
    (first : Names t n.first) (more : List.Forall₂ SpellsSegment n.more groups) :
    SpellsName n (t :: groups.flatten)

/-- Segments end with an identifier, as the one in front of them does. -/
theorem last_of_segments {t : Token} (ident : t.kind = .ident) {is : List Ident}
    {groups : List (List Token)} (more : List.Forall₂ SpellsSegment is groups) :
    ∃ last ∈ (t :: groups.flatten).getLast?, last.kind = .ident := by
  induction more generalizing t with
  | nil => exact ⟨t, rfl, ident⟩
  | cons segment _ ih =>
    obtain ⟨_, names⟩ := segment
    simpa only [List.flatten_cons, List.cons_append, List.nil_append, List.getLast?_cons_cons]
      using ih names.kind

theorem SpellsName.last {n : ScopedName} {ts : List Token} (spelled : SpellsName n ts) :
    ∃ last ∈ ts.getLast?, last.kind = .ident := by
  cases spelled with
  | absolute _ _ first more =>
    rw [List.getLast?_cons_cons]
    exact last_of_segments first.kind more
  | relative _ first more => exact last_of_segments first.kind more

theorem SpellsName.front {n : ScopedName} {s : Cursor} {ts rest : List Token}
    (spelled : SpellsName n ts) (next : s.rest = ts ++ rest) :
    s.kind = .ident ∨ s.kind = .punct .colonColon := by
  cases spelled with
  | absolute _ colons _ _ => exact .inr ((Cursor.kind_of_rest next).trans colons)
  | relative _ first _ => exact .inl ((Cursor.kind_of_rest next).trans first.kind)

/-- The token is a string literal of the kind for a text. -/
structure Quotes (kind : LiteralKind) (text : List Char) (t : Token) : Prop where
  kind : t.kind = .literal kind
  value : Lexeme.string t.lexeme.toList = .ok text

theorem Quotes.kind_of_mem {k : LiteralKind} {texts : List (List Char)} {ts : List Token}
    (quotes : List.Forall₂ (Quotes k) texts ts) : ∀ t ∈ ts, t.kind = .literal k := by
  induction quotes with
  | nil => simp
  | cons first _ ih => simpa [first.kind] using ih

/-- The tokens of a literal. A text may be cut into several string literals. -/
inductive SpellsLiteral : Literal → List Token → Prop
  | integer {t : Token} {k : LiteralKind} {n : Nat} {radix : Radix}
    (integral : k = .decimal ∨ k = .octal ∨ k = .hex) (kind : t.kind = .literal k)
    (value : Lexeme.integer k t.lexeme.toList = .ok (n, radix)) :
    SpellsLiteral (.integer n radix) [t]
  | float {t : Token} {x : Double} (kind : t.kind = .literal .float)
    (value : Lexeme.float t.lexeme.toList = .ok x) : SpellsLiteral (.float x) [t]
  | fixed {t : Token} {x : Double} (kind : t.kind = .literal .fixed)
    (value : Lexeme.fixed t.lexeme.toList = .ok x) : SpellsLiteral (.fixed x) [t]
  | char {t : Token} {c : Char} (kind : t.kind = .literal .char)
    (value : Lexeme.char t.lexeme.toList = .ok c) : SpellsLiteral (.char c) [t]
  | wchar {t : Token} {c : Char} (kind : t.kind = .literal .wchar)
    (value : Lexeme.char t.lexeme.toList = .ok c) : SpellsLiteral (.wchar c) [t]
  | string {t : Token} {ts : List Token} {text : List Char} {texts : List (List Char)}
    (first : Quotes .string text t) (more : List.Forall₂ (Quotes .string) texts ts) :
    SpellsLiteral (.string (String.ofList (text ++ texts.flatten))) (t :: ts)
  | wstring {t : Token} {ts : List Token} {text : List Char} {texts : List (List Char)}
    (first : Quotes .wstring text t) (more : List.Forall₂ (Quotes .wstring) texts ts) :
    SpellsLiteral (.wstring (String.ofList (text ++ texts.flatten))) (t :: ts)
  | boolean {t : Token} {b : Bool} (kind : t.kind = .keyword (if b then .trueKw else .falseKw)) :
    SpellsLiteral (.boolean b) [t]

/-- The tokens render the expression where operators looser than the level `n` need parentheses.
Parentheses may stand around any other operand as well. -/
inductive Renders : Nat → ConstExpr → List Token → Prop
  | binary {n : Nat} {op : BinaryOp} {left right : ConstExpr} {span : Span}
    {ts marks us : List Token} (tight : n ≤ op.strength) (first : Renders op.strength left ts)
    (spelled : SpellsOp op marks) (second : Renders (op.strength + 1) right us) :
    Renders n (.binary op left right span none) (ts ++ (marks ++ us))
  | unary {n : Nat} {op : UnaryOp} {e : ConstExpr} {span : Span} {t : Token} {ts : List Token}
    (mark : t.kind = .punct op.mark) (operand : Renders 6 e ts) :
    Renders n (.unary op e span none) (t :: ts)
  | literal {n : Nat} {l : Literal} {span : Span} {ts : List Token} (spelled : SpellsLiteral l ts) :
    Renders n (.literal l span none) ts
  | name {n : Nat} {name : ScopedName} {span : Span} {ts : List Token}
    (spelled : SpellsName name ts) : Renders n (.name name span none) ts
  | parens {n : Nat} {e : ConstExpr} {left right : Token} {ts : List Token}
    (opening : left.kind = .punct .leftParen) (whole : Renders 0 e ts)
    (closing : right.kind = .punct .rightParen) : Renders n e (left :: (ts ++ [right]))

/-- Where looser operators would need parentheses, so would tighter ones. -/
theorem Renders.mono {m n : Nat} {e : ConstExpr} {ts : List Token} (renders : Renders n e ts)
    (le : m ≤ n) : Renders m e ts := by
  cases renders with
  | binary tight first spelled second =>
    exact .binary (Nat.le_trans le tight) first spelled second
  | unary mark operand => exact .unary mark operand
  | literal spelled => exact .literal spelled
  | name spelled => exact .name spelled
  | parens opening whole closing => exact .parens opening whole closing

/-- The token behind goes on with the name or the text that the one in front is of. -/
def Continues (last next : Token) : Prop :=
  last.kind = .ident ∧ next.kind = .punct .colonColon ∨
    next.kind = last.kind ∧ (last.kind = .literal .string ∨ last.kind = .literal .wstring)

/-- A mark that starts no segment of a name goes on with nothing. -/
theorem not_continues {last t : Token} {mark : Punct} (kind : t.kind = .punct mark)
    (colons : mark ≠ .colonColon) : ¬ Continues last t := by
  rintro (⟨-, names⟩ | ⟨same, text⟩)
  · exact colons (TokenKind.punct.inj (kind.symm.trans names))
  · rw [← same, kind] at text
    simp at text

/-- What stands behind the tokens of an expression cannot continue it: it begins neither with an
operator of the level `n` or a tighter one nor with more of the name or text in front. -/
structure EndsAt (n : Nat) (ts rest : List Token) : Prop where
  operator : ∀ op marks more, n ≤ op.strength → SpellsOp op marks → rest ≠ marks ++ more
  token : ∀ last ∈ ts.getLast?, ∀ next ∈ rest.head?, ¬ Continues last next

/-- No operator is as strong as an operand. -/
theorem EndsAt.of_token {ts rest : List Token}
    (token : ∀ last ∈ ts.getLast?, ∀ next ∈ rest.head?, ¬ Continues last next) :
    EndsAt 6 ts rest :=
  ⟨fun op _ _ tight => absurd tight (Nat.not_le_of_lt op.strength_lt), token⟩

theorem EndsAt.mono {m n : Nat} {ts rest : List Token} (ends : EndsAt m ts rest) (le : m ≤ n) :
    EndsAt n ts rest :=
  ⟨fun op marks more tight => ends.operator op marks more (Nat.le_trans le tight), ends.token⟩

/-! Names are read back. -/

section

variable {s : Cursor} {t : Token} {ts rest : List Token}

theorem accepts_ident {i : Ident} (next : s.rest = t :: rest) (names : Names t i) :
    Accepts ident s [t] fun j => j.unplaced = i.unplaced := by
  have peek := Cursor.peek_of_rest next
  refine ⟨⟨t.lexeme, t.span⟩, _, ?_, passed_bump next (by simp [TokenKind.IsBrace, names.kind]), ?_⟩
  · rw [ident, peek, if_pos names.kind]
  · simp [Ident.unplaced, names.lexeme]

/-- The reader is not in front of a token of the kind. -/
theorem Cursor.kind_ne_of_head {k : TokenKind} (next : s.rest = rest) (present : k ≠ .eof)
    (other : ∀ t ∈ rest.head?, t.kind ≠ k) : s.kind ≠ k := by
  cases rest with
  | nil =>
    intro kind
    refine present_of_kind (s := s) ?_ next
    rw [kind]
    exact present
  | cons t ts =>
    rw [kind_of_rest next]
    exact other t rfl

/-- The segments behind the first one. -/
theorem accepts_segments {is : List Ident} {groups : List (List Token)}
    (more : List.Forall₂ SpellsSegment is groups) (next : s.rest = groups.flatten ++ rest)
    (ends : ∀ t ∈ rest.head?, t.kind ≠ .punct .colonColon) :
    Accepts (manyAfter .colonColon ident) s groups.flatten
      fun js => js.map Ident.unplaced = is.map Ident.unplaced := by
  have reads : Accepts (manyAfter .colonColon ident) s groups.flatten
      fun js => List.Forall₂ (fun (i j : Ident) => i.unplaced = j.unplaced) is js := by
    refine accepts_many (fun i group s more segment next => ?_) (fun s last => ?_) more next
    · obtain ⟨colons, names⟩ := segment
      have kind := (Cursor.kind_of_rest next).trans colons
      refine ⟨by simp, by simp [Cursor.at?_iff.mpr kind], ?_⟩
      refine (accepts_expect next colons (by simp [TokenKind.IsBrace, colons])).discard.bind
        fun _ t passed _ => ?_
      exact (accepts_ident (passed.left next) names).imp fun _ same => same.symm
    · have other := Cursor.kind_ne_of_head last (by decide) ends
      simp [Cursor.at?_iff.not.mpr other]
  refine reads.imp fun js same => ?_
  rw [← List.forall₂_eq_eq_eq, List.forall₂_map_left_iff, List.forall₂_map_right_iff]
  exact same.flip.imp fun _ _ same => same.symm

theorem accepts_scopedName {n : ScopedName} (spelled : SpellsName n ts)
    (next : s.rest = ts ++ rest) (ends : ∀ t ∈ rest.head?, t.kind ≠ .punct .colonColon) :
    Accepts scopedName s ts fun m => m.unplaced = n.unplaced := by
  -- what is read behind the mark in front
  have named {t : Token} {groups : List (List Token)} (absolute : Bool) (start : Span)
      (first : Names t n.first) (more : List.Forall₂ SpellsSegment n.more groups) (s : Cursor)
      (next : s.rest = t :: groups.flatten ++ rest) (same : absolute = n.absolute) :
      Accepts (do
        let first ← ident
        let more ← manyAfter .colonColon ident
        return ⟨absolute, first, more, ← spanFrom start⟩) s (t :: groups.flatten)
        fun m : ScopedName => m.unplaced = n.unplaced := by
    refine (accepts_ident next first).bind fun i t passed head => ?_
    refine (accepts_segments more (passed.left next) ends).bindPure fun is u _ tail => ?_
    refine (accepts_spanFrom start).bind fun span _ _ _ => .pure ?_
    rw [ScopedName.unplaced, ScopedName.unplaced, head, tail, same]
  refine accepts_here.bind fun start s passed _ => ?_
  have next := passed.left next
  cases spelled with
  | @absolute mark _ _ absolute colons first more =>
    have plain : ¬ mark.kind.IsBrace := by simp [TokenKind.IsBrace, colons]
    refine (accepts_eat next colons plain).bind fun found s passed taken => ?_
    refine named found start first more s (passed.left next) ?_
    rw [taken, absolute]
  | relative relative first more =>
    have kind : s.kind ≠ .punct .colonColon := by
      rw [Cursor.kind_of_rest next, first.kind]
      decide
    refine (accepts_eat_absent kind).bind fun found s passed taken => ?_
    refine named found start first more s (passed.left next) ?_
    rw [taken, relative]

/-! Literals are read back. -/

theorem accepts_decoded {α : Type} {decode : List Char → Except LiteralFault α} {a : α}
    (next : s.rest = t :: rest) {k : LiteralKind} (kind : t.kind = .literal k)
    (value : decode t.lexeme.toList = .ok a) :
    Accepts (decoded decode) s [t] fun r => r.1 = a := by
  refine ⟨(a, t.span), _, ?_, passed_bump next (by simp [TokenKind.IsBrace, kind]), rfl⟩
  simp only [decoded, Cursor.peek_of_rest next, value]

theorem accepts_stringRun {k : LiteralKind} {text : List Char} {texts : List (List Char)}
    (first : Quotes k text t) (more : List.Forall₂ (Quotes k) texts ts)
    (next : s.rest = t :: ts ++ rest) (ends : ∀ t ∈ rest.head?, t.kind ≠ .literal k) :
    Accepts (stringRun k) s (t :: ts) fun r => r.1 = String.ofList (text ++ texts.flatten) := by
  refine (accepts_decoded next first.kind first.value).bind fun ⟨head, start⟩ s passed same => ?_
  obtain rfl : head = text := same
  have next := passed.left next
  have spelled : List.Forall₂ (fun text group => ∃ t, group = [t] ∧ Quotes k text t) texts
      (ts.map ([·])) := by
    rw [List.forall₂_map_right_iff]
    exact more.imp fun _ t quotes => ⟨t, rfl, quotes⟩
  have flat : (ts.map ([·])).flatten = ts := by
    rw [← List.flatMap_def, List.flatMap_singleton']
  have stops (s : Cursor) (last : s.rest = rest) : (s.kind != .literal k) = true := by
    simpa using Cursor.kind_ne_of_head last (by simp) ends
  have reads : Accepts (many (fun s => s.kind != .literal k) (decoded Lexeme.string)) s
      (ts.map ([·])).flatten fun rs => List.Forall₂ (fun text r => r.1 = text) texts rs := by
    refine accepts_many (fun text group s more spelled next => ?_) stops spelled (by rwa [flat])
    obtain ⟨t, rfl, quotes⟩ := spelled
    have kind := (Cursor.kind_of_rest next).trans quotes.kind
    exact ⟨by simp, by simp [kind], accepts_decoded next quotes.kind quotes.value⟩
  rw [flat] at reads
  refine reads.bindPure fun rs t _ same => .pure ?_
  have texts_eq : rs.flatMap (·.1) = texts.flatten := by
    rw [List.flatMap_def]
    congr 1
    rw [← List.forall₂_eq_eq_eq, List.forall₂_map_left_iff]
    exact same.flip
  simp only [texts_eq]

/-- What is read makes the literal. -/
theorem accepts_made {α : Type} {p : Parser (α × Span)} {a : α} (make : α → Literal)
    (reads : Accepts p s ts fun r => r.1 = a) :
    Accepts (p >>= fun r => Pure.pure (ConstExpr.literal (make r.1) r.2 none)) s ts
      fun e => e.unplaced = .literal (make a) .empty none :=
  reads.bindPure fun r _ _ same => .pure (by rw [ConstExpr.unplaced, same])

theorem operandWith_of_literal {operand whole : Parser ConstExpr} {k : LiteralKind}
    (kind : s.kind = .literal k) : operandWith operand whole s = literal k s := by
  rw [operandWith, bind_apply]
  simp only [Grammar.kind, kind, unaryOp?]

theorem operandWith_of_name {operand whole : Parser ConstExpr}
    (kind : s.kind = .ident ∨ s.kind = .punct .colonColon) :
    operandWith operand whole s =
      (do let name ← scopedName; return ConstExpr.name name name.span none) s := by
  rw [operandWith, bind_apply]
  obtain kind | kind := kind <;> simp only [Grammar.kind, kind, unaryOp?]

theorem operandWith_of_boolean {operand whole : Parser ConstExpr} {b : Bool}
    (kind : s.kind = .keyword (if b then .trueKw else .falseKw)) :
    operandWith operand whole s =
      (do let t ← bump; return ConstExpr.literal (.boolean b) t.span none) s := by
  rw [operandWith, bind_apply]
  cases b <;> simp only [Grammar.kind, kind, unaryOp?] <;> rfl

/-- The literal is read from its tokens, whatever readers stand for operands and whole
expressions. -/
theorem accepts_literal {operand whole : Parser ConstExpr} {l : Literal}
    (spelled : SpellsLiteral l ts) (next : s.rest = ts ++ rest)
    (ends : ∀ last ∈ ts.getLast?, ∀ next ∈ rest.head?, ¬ Continues last next) :
    Accepts (operandWith operand whole) s ts fun e => e.unplaced = .literal l .empty none := by
  -- a token of a literal that is not a boolean
  have of_kind {k : LiteralKind} {t : Token} {us : List Token} (next : s.rest = t :: us)
      (kind : t.kind = .literal k)
      (reads : Accepts (literal k) s ts fun e => e.unplaced = .literal l .empty none) :
      Accepts (operandWith operand whole) s ts fun e => e.unplaced = .literal l .empty none := by
    exact reads.congr (operandWith_of_literal ((Cursor.kind_of_rest next).trans kind))
  -- nothing goes on with the text
  have ended {k : LiteralKind} {texts : List (List Char)} {t : Token} {us : List Token}
      (text : k = .string ∨ k = .wstring) (first : t.kind = .literal k)
      (more : List.Forall₂ (Quotes k) texts us) (whole : ts = t :: us) :
      ∀ t ∈ rest.head?, t.kind ≠ .literal k := by
    intro u mem kind
    obtain ⟨last, is_last⟩ : ∃ last, ts.getLast? = some last := by
      rw [whole, List.getLast?_cons]
      exact ⟨_, rfl⟩
    have last_kind : last.kind = .literal k := by
      have last_mem := List.mem_of_getLast? is_last
      rw [whole, List.mem_cons] at last_mem
      obtain rfl | last_mem := last_mem
      · exact first
      · exact Quotes.kind_of_mem more last last_mem
    refine ends last is_last u mem (.inr ⟨kind.trans last_kind.symm, ?_⟩)
    simpa [last_kind] using text
  cases spelled with
  | integer integral kind value =>
    have reads := accepts_made (fun r => Literal.integer r.1 r.2) (accepts_decoded next kind value)
    obtain rfl | rfl | rfl := integral <;> exact of_kind next kind reads
  | float kind value =>
    exact of_kind next kind (accepts_made .float (accepts_decoded next kind value))
  | fixed kind value =>
    exact of_kind next kind (accepts_made .fixed (accepts_decoded next kind value))
  | char kind value =>
    exact of_kind next kind (accepts_made .char (accepts_decoded next kind value))
  | wchar kind value =>
    exact of_kind next kind (accepts_made .wchar (accepts_decoded next kind value))
  | string first more =>
    have ends := ended (.inl rfl) first.kind more rfl
    exact of_kind next first.kind (accepts_made .string (accepts_stringRun first more next ends))
  | wstring first more =>
    have ends := ended (.inr rfl) first.kind more rfl
    exact of_kind next first.kind (accepts_made .wstring (accepts_stringRun first more next ends))
  | @boolean t b kind =>
    have plain : ¬ t.kind.IsBrace := by cases b <;> simp [TokenKind.IsBrace, kind]
    have reads : Accepts (do let t ← bump; return ConstExpr.literal (.boolean b) t.span none) s [t]
        fun e => e.unplaced = .literal (.boolean b) .empty none :=
      (accepts_bump next plain).bindPure fun _ _ _ _ => .pure rfl
    exact reads.congr (operandWith_of_boolean ((Cursor.kind_of_rest next).trans kind))

theorem accepts_name {operand whole : Parser ConstExpr} {n : ScopedName}
    (spelled : SpellsName n ts) (next : s.rest = ts ++ rest)
    (ends : ∀ last ∈ ts.getLast?, ∀ next ∈ rest.head?, ¬ Continues last next) :
    Accepts (operandWith operand whole) s ts
      fun e => e.unplaced = .name n.unplaced .empty none := by
  have ended : ∀ t ∈ rest.head?, t.kind ≠ .punct .colonColon := by
    intro u mem kind
    obtain ⟨last, is_last, last_kind⟩ := spelled.last
    exact ends last is_last u mem (.inl ⟨last_kind, kind⟩)
  have reads : Accepts (do let name ← scopedName; return ConstExpr.name name name.span none) s ts
      fun e : ConstExpr => e.unplaced = .name n.unplaced .empty none :=
    (accepts_scopedName spelled next ended).bindPure fun m _ _ same =>
      .pure (by rw [ConstExpr.unplaced, same])
  exact reads.congr (operandWith_of_name (spelled.front next))

end

end Grammar

end Idl
