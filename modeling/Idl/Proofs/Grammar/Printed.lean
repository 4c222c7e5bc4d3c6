import Idl.Proofs.Double.Text
import Idl.Proofs.Grammar.Formed
import Idl.Proofs.Grammar.Precedence
import Idl.Proofs.Token.Scanned

/-!
The text of an expression is scanned into tokens that render it, and the text of a literal into one
token that is read as the literal. Main statements: `scans_legible` and `ConstExpr.Printable.scans`.
-/

set_option autoImplicit false

namespace Idl

namespace Shape

/-! Digits and their marks. -/

theorem isDigit_of_isDigit {c : Char} (digit : c.isDigit = true) : isDigit c = true := by
  simpa [isDigit, Char.isDigit, Char.le_def] using digit

theorem isDigits_of_isDigit {ds : List Char} (some : ds ≠ [])
    (digits : ∀ c ∈ ds, c.isDigit = true) : IsDigits ds :=
  ⟨some, fun c mem => isDigit_of_isDigit (digits c mem)⟩

theorem isExponent_text (e : Int) : IsExponent ('e' :: (toString e).toList) := by
  have digits (n : Nat) : IsDigits (Nat.toDigits 10 n) :=
    isDigits_of_isDigit Nat.toDigits_ne_nil fun c mem => Double.isDigit_toDigits mem
  rw [Int.toString_eq_repr, Int.repr_eq_if]
  split
  · rw [Nat.toList_repr]
    exact .power (.inl rfl) (.inl rfl) (digits _)
  · rw [String.toList_append, Nat.toList_repr]
    exact .power (.inl rfl) (.inr (.inr rfl)) (digits _)

end Shape

namespace Double

variable {n : Numeral} {x : Double}

/-! Numerals. -/

theorem Numeral.Proper.front (proper : n.Proper) :
    Shape.IsMantissa (n.whole ++ (match n.places with
      | some ds => '.' :: ds
      | none => [])) ∨ n.places = none ∧ Shape.IsDigits n.whole := by
  have whole := Shape.isDigits_of_isDigit proper.nonempty proper.whole
  cases eq : n.places with
  | none => exact .inr ⟨rfl, whole⟩
  | some ds =>
    have places (c : Char) (mem : c ∈ ds) : Shape.isDigit c = true :=
      Shape.isDigit_of_isDigit (proper.places ds eq c mem)
    exact .inl (.point whole.all places fun none => whole.some none.1)

/-- A numeral with a point or an exponent is a floating number. -/
theorem Numeral.Proper.isFloat (proper : n.Proper)
    (some : n.places ≠ none ∨ n.exponent ≠ none) : Shape.IsNumber .float n.chars := by
  rw [Numeral.chars]
  obtain mantissa | ⟨none, digits⟩ := proper.front
  · cases n.exponent with
    | none => exact .float mantissa (.inl rfl)
    | some e => exact .float mantissa (.inr (Shape.isExponent_text e))
  · rw [none]
    dsimp only
    cases eq : n.exponent with
    | none => simp [none, eq] at some
    | some e =>
      rw [List.append_nil]
      exact .scientific digits (Shape.isExponent_text e)

/-- A numeral without an exponent is a fixed-point number in front of its letter. -/
theorem Numeral.Proper.isFixed (proper : n.Proper) (plain : n.exponent = none) :
    Shape.IsNumber .fixed (n.chars ++ ['d']) := by
  rw [Numeral.chars, plain, List.append_nil]
  obtain mantissa | ⟨none, digits⟩ := proper.front
  · exact .fixed (.inl mantissa) (.inl rfl)
  · rw [none, List.append_nil]
    exact .fixed (.inr digits) (.inl rfl)

/-- Before its letter, a fixed-point number ends with no other one. -/
theorem Numeral.Proper.last (proper : n.Proper) (plain : n.exponent = none) :
    ∀ c ∈ n.chars, Lexeme.isFixedSuffix c = false := by
  have digit {c : Char} (digit : c.isDigit = true) : Lexeme.isFixedSuffix c = false := by
    rw [Lexeme.isFixedSuffix, Bool.or_eq_false_iff, decide_eq_false_iff_not,
      decide_eq_false_iff_not]
    constructor <;> (rintro rfl; exact absurd digit (by decide))
  rw [Numeral.chars, plain, List.append_nil, List.forall_mem_append]
  refine ⟨fun c mem => digit (proper.whole c mem), ?_⟩
  cases eq : n.places with
  | none => exact fun c mem => absurd mem List.not_mem_nil
  | some ds =>
    rw [List.forall_mem_cons]
    exact ⟨rfl, fun c mem => digit (proper.places ds eq c mem)⟩

theorem numeral_general (m : Nat) :
    (numeral general m).places ≠ none ∨ (numeral general m).exponent ≠ none := by
  rw [numeral]
  split
  · exact .inl (by simp [general])
  · dsimp only
    split
    · exact .inr (by simp)
    · split
      · exact .inl (by simp)
      · split <;> exact .inl (by simp [general])

theorem numeral_positional (m : Nat) : (numeral positional m).exponent = none := by
  rw [numeral]
  split
  · rfl
  · simp only [positional, Bool.false_and, Bool.false_eq_true, if_false]
    split
    · rfl
    · split <;> rfl

/-- A number without a sign that is not infinite. -/
structure Finite (x : Double) : Prop where
  positive : x.negative = false
  number : x.isNaN = false
  finite : x.isInfinite = false

namespace Finite

theorem magnitude_lt (finite : x.Finite) : x.magnitude < infinityBits := by
  have number := finite.number
  have finite := finite.finite
  simp only [isNaN, decide_eq_false_iff_not] at number
  simp only [isInfinite, beq_eq_false_iff_ne] at finite
  omega

theorem ofMagnitude (finite : x.Finite) : Double.ofMagnitude false x.magnitude = x := by
  obtain ⟨bits⟩ := x
  have positive := finite.positive
  simp only [negative, ge_iff_le, decide_eq_false_iff_not, UInt64.not_le] at positive
  have small : bits.toNat < signBit := positive
  rw [Double.ofMagnitude, magnitude, Nat.mod_eq_of_lt small]
  simp

theorem textAs (finite : x.Finite) (f : Format) :
    (x.textAs f).toList = (numeral f x.magnitude).chars := by
  rw [Double.textAs, finite.number, finite.positive, finite.finite, ← magnitudeText_eq]
  simp

theorem read (finite : x.Finite) (f : Format) :
    Double.read (numeral f x.magnitude).chars = .ok x := by
  rw [← magnitudeText_eq, read_magnitudeText f finite.magnitude_lt, finite.ofMagnitude]

theorem isFloat_text (finite : x.Finite) : Shape.IsNumber .float x.text.toList := by
  rw [Double.text, finite.textAs]
  exact (numeral_proper general x.magnitude).isFloat (numeral_general x.magnitude)

theorem isFixed_text (finite : x.Finite) :
    Shape.IsNumber .fixed (x.plainText ++ "d").toList := by
  rw [String.toList_append, Double.plainText, finite.textAs]
  exact (numeral_proper positional x.magnitude).isFixed (numeral_positional x.magnitude)

theorem float_text (finite : x.Finite) : Lexeme.float x.text.toList = .ok x := by
  rw [Double.text, finite.textAs, Lexeme.float, finite.read]
  rfl

theorem fixed_text (finite : x.Finite) :
    Lexeme.fixed (x.plainText ++ "d").toList = .ok x := by
  have proper := numeral_proper positional x.magnitude
  have last := proper.last (numeral_positional x.magnitude)
  have stripped : ((numeral positional x.magnitude).chars ++ ['d']).reverse.dropWhile
      Lexeme.isFixedSuffix = (numeral positional x.magnitude).chars.reverse := by
    rw [List.reverse_append, List.reverse_singleton, List.singleton_append,
      List.dropWhile_cons_of_pos rfl, List.dropWhile_eq_self_iff]
    intro some
    simpa using last _ (List.mem_reverse.mp (List.getElem_mem some))
  rw [String.toList_append, Double.plainText, finite.textAs, Lexeme.fixed]
  change Lexeme.float (List.dropWhile Lexeme.isFixedSuffix
    ((numeral positional x.magnitude).chars ++ ['d']).reverse).reverse = _
  rw [stripped, List.reverse_reverse, Lexeme.float, finite.read]
  rfl

end Finite

end Double

/-- The literal has a text that stands for it alone, if it is formed. -/
def Literal.Legible : Literal → Prop
  | .float x | .fixed x => x.isInfinite = false
  | .string s | .wstring s => NulsApart s.toList
  | _ => True

/-- The class of the one token that a literal is written as. -/
def Literal.tokenKind : Literal → TokenKind
  | .integer _ radix => .literal radix.kind
  | .float _ => .literal .float
  | .fixed _ => .literal .fixed
  | .char _ => .literal .char
  | .wchar _ => .literal .wchar
  | .string _ => .literal .string
  | .wstring _ => .literal .wstring
  | .boolean b => .keyword (if b then .trueKw else .falseKw)

/-- The literal has a text that stands for it alone. -/
def Literal.Printable : Literal → Prop
  | .integer n _ => n < UInt64.size
  | .float _ | .fixed _ => False
  | .string s | .wstring s => NulsApart s.toList
  | .char _ | .wchar _ | .boolean _ => True

theorem Literal.Printable.formed {l : Literal} (printable : l.Printable) : l.Formed := by
  cases l with
  | integer => exact printable
  | float | fixed => exact printable.elim
  | char | wchar | boolean | string | wstring => trivial

theorem Literal.Printable.legible {l : Literal} (printable : l.Printable) : l.Legible := by
  cases l with
  | string | wstring => exact printable
  | float | fixed => exact printable.elim
  | integer | char | wchar | boolean => trivial

/-- Nothing of the expression is evaluated, its names are made of identifiers, and its literals are
printable. -/
inductive ConstExpr.Printable : ConstExpr → Prop
  | binary {op : BinaryOp} {left right : ConstExpr} {span : Span} (first : left.Printable)
    (second : right.Printable) : Printable (.binary op left right span none)
  | unary {op : UnaryOp} {e : ConstExpr} {span : Span} (operand : e.Printable) :
    Printable (.unary op e span none)
  | literal {l : Literal} {span : Span} (printable : l.Printable) :
    Printable (.literal l span none)
  | name {n : ScopedName} {span : Span} (idents : ∀ i ∈ n.segments, IsIdent i.name) :
    Printable (.name n span none)

namespace Scanned

variable {p : Place} {after : List Char}

theorem isWord_keyword (k : Keyword) : IsWord k.text := by
  cases k <;> exact ⟨_, _, rfl, rfl, List.all_eq_true.mp rfl⟩

theorem keyword (k : Keyword) (delimited : Delimited after) :
    Scanned p k.text.toList after [⟨.keyword k, k.text, p.spanOf k.text.toList⟩] := by
  have kind : TokenKind.ofWord k.text = .keyword k := by
    rw [TokenKind.ofWord, Keyword.ofText?_text]
  rw [← kind]
  exact .word (isWord_keyword k) delimited

theorem ident {word : String} (ident : IsIdent word) (delimited : Delimited after) :
    Scanned p word.toList after [⟨.ident, word, p.spanOf word.toList⟩] := by
  have kind : TokenKind.ofWord word = .ident := by rw [TokenKind.ofWord, ident.free]
  rw [← kind]
  exact .word ident.shape delimited

/-- A number of a class that has a value is one token. -/
theorem number {kind : LiteralKind} {text : String} (shape : Shape.IsNumber kind text.toList)
    (value : Lexeme.fault? kind text.toList = none) (delimited : Delimited after) :
    Scanned p text.toList after [⟨.literal kind, text, p.spanOf text.toList⟩] := by
  apply lexeme (.number shape value)
  · intro d mem
    rw [endsToken_number_iff shape]
    exact ⟨(delimited d mem).1, fun _ => (delimited d mem).2.1⟩
  · simp

end Scanned

namespace Grammar

variable {p : Place} {after : List Char}

/-! Literals. -/

/-- A quoted literal that is read as `a` is one token with that value. -/
theorem scans_quoted {α : Type} {decode : List Char → Except LiteralFault α} {a : α} {quote : Char}
    (valid : IsQuote quote) {wide : Bool} {text : List Char}
    (reason : ∀ lexeme, Lexeme.fault? (quotedKind wide quote) lexeme =
      Lexeme.fault?.reason (decode lexeme))
    (value : decode (quotedText wide quote text) = .ok a) :
    Scans p (String.ofList (quotedText wide quote text)).toList after fun ts =>
      ∃ t, ts = [t] ∧ t.kind = .literal (quotedKind wide quote) ∧
        decode t.lexeme.toList = .ok a := by
  have fault : Lexeme.fault? (quotedKind wide quote) (quotedText wide quote text) = none := by
    rw [reason, value]
    rfl
  refine (Scanned.quoted valid fault).scans ⟨_, rfl, rfl, ?_⟩
  rw [String.toList_ofList, value]

theorem scans_string {s : String} (apart : NulsApart s.toList) (wide : Bool) :
    Scans p (String.ofList (quotedText wide '"' s.toList)).toList after fun ts =>
      ∃ t, ts = [t] ∧ Quotes (quotedKind wide '"') s.toList t := by
  obtain ⟨narrow, marked⟩ := string_quoteLiteral apart
  have value : Lexeme.string (quotedText wide '"' s.toList) = .ok s.toList := by
    cases wide
    · exact narrow
    · exact marked
  refine (scans_quoted (.inl rfl) ?_ value).imp ?_
  · intro lexeme
    cases wide <;> rfl
  · rintro _ ⟨t, rfl, kind, read⟩
    exact ⟨t, rfl, kind, read⟩

theorem scans_char (c : Char) (wide : Bool) :
    Scans p (String.ofList (quotedText wide '\'' [c])).toList after fun ts =>
      ∃ t, ts = [t] ∧ t.kind = .literal (quotedKind wide '\'') ∧
        Lexeme.char t.lexeme.toList = .ok c := by
  obtain ⟨narrow, marked⟩ := char_quoteLiteral c
  have value : Lexeme.char (quotedText wide '\'' [c]) = .ok c := by
    cases wide
    · exact narrow
    · exact marked
  refine scans_quoted (.inr rfl) ?_ value
  intro lexeme
  cases wide <;> rfl

theorem wide_sourceLiteral (quote : Char) (text : List Char) :
    "L" ++ sourceLiteral quote text = String.ofList (quotedText true quote text) := by
  rw [← String.toList_inj]
  simp [sourceLiteral, quotedText]

/-- A literal that is formed and legible is written as one token, which is read as the literal. -/
theorem scans_legible {l : Literal} (formed : l.Formed) (legible : l.Legible)
    (delimited : Delimited after) :
    Scans p l.text.toList after fun ts =>
      ∃ t, ts = [t] ∧ t.kind = l.tokenKind ∧ SpellsLiteral l [t] := by
  cases l with
  | integer n radix =>
    have integral : radix.kind = .decimal ∨ radix.kind = .octal ∨ radix.kind = .hex := by
      cases radix <;> simp [Radix.kind]
    exact (Scanned.integer radix formed delimited).scans
      ⟨_, rfl, rfl, .integer integral rfl (integer_of_text radix formed)⟩
  | float x =>
    have finite : x.Finite := ⟨formed.1, formed.2, legible⟩
    have value : Lexeme.fault? .float x.text.toList = none := by
      rw [Lexeme.fault?, finite.float_text]
      rfl
    exact (Scanned.number finite.isFloat_text value delimited).scans
      ⟨_, rfl, rfl, .float rfl finite.float_text⟩
  | fixed x =>
    have finite : x.Finite := ⟨formed.1, formed.2, legible⟩
    have value : Lexeme.fault? .fixed (x.plainText ++ "d").toList = none := by
      rw [Lexeme.fault?, finite.fixed_text]
      rfl
    exact (Scanned.number finite.isFixed_text value delimited).scans
      ⟨_, rfl, rfl, .fixed rfl finite.fixed_text⟩
  | char c =>
    refine (scans_char c false).imp ?_
    rintro _ ⟨t, rfl, kind, value⟩
    exact ⟨t, rfl, kind, .char kind value⟩
  | wchar c =>
    rw [Literal.text, wide_sourceLiteral]
    refine (scans_char c true).imp ?_
    rintro _ ⟨t, rfl, kind, value⟩
    exact ⟨t, rfl, kind, .wchar kind value⟩
  | string s =>
    refine (scans_string legible false).imp ?_
    rintro _ ⟨t, rfl, quotes⟩
    have spelled := SpellsLiteral.string quotes .nil
    rw [List.flatten_nil, List.append_nil, String.ofList_toList] at spelled
    exact ⟨t, rfl, quotes.kind, spelled⟩
  | wstring s =>
    rw [Literal.text, wide_sourceLiteral]
    refine (scans_string legible true).imp ?_
    rintro _ ⟨t, rfl, quotes⟩
    have spelled := SpellsLiteral.wstring quotes .nil
    rw [List.flatten_nil, List.append_nil, String.ofList_toList] at spelled
    exact ⟨t, rfl, quotes.kind, spelled⟩
  | boolean b =>
    cases b with
    | false => exact (Scanned.keyword .falseKw delimited).scans ⟨_, rfl, rfl, .boolean rfl⟩
    | true => exact (Scanned.keyword .trueKw delimited).scans ⟨_, rfl, rfl, .boolean rfl⟩

theorem scans_literal {l : Literal} (printable : l.Printable) (delimited : Delimited after) :
    Scans p l.text.toList after (SpellsLiteral l) := by
  refine (scans_legible printable.formed printable.legible delimited).imp ?_
  rintro _ ⟨t, rfl, -, spelled⟩
  exact spelled

/-! Names. -/

theorem toList_intercalate_cons (sep w : String) (ws : List String) :
    (sep.intercalate (w :: ws)).toList =
      w.toList ++ ws.flatMap fun v => sep.toList ++ v.toList := by
  induction ws generalizing w with
  | nil => simp
  | cons v ws ih =>
    rw [String.intercalate_cons_cons, String.toList_append, String.toList_append, ih]
    simp

theorem toList_name (n : ScopedName) : n.text.toList =
    (if n.absolute then Punct.colonColon.text.toList else []) ++
      (n.first.name.toList ++
        n.more.flatMap fun i => Punct.colonColon.text.toList ++ i.name.toList) := by
  have path : n.path = n.first.name :: n.more.map (·.name) := rfl
  rw [ScopedName.text, String.toList_append, path, toList_intercalate_cons, List.flatMap_map]
  cases n.absolute <;> rfl

theorem delimited_segments (is : List Ident) (delimited : Delimited after) :
    Delimited ((is.flatMap fun i => Punct.colonColon.text.toList ++ i.name.toList) ++ after) := by
  cases is with
  | nil => exact delimited
  | cons i is => exact .cons (by decide)

/-- The segments behind the first one. -/
theorem scans_segments {is : List Ident} (idents : ∀ i ∈ is, IsIdent i.name)
    (delimited : Delimited after) :
    Scans p (is.flatMap fun i => Punct.colonColon.text.toList ++ i.name.toList) after
      fun ts => ∃ groups, ts = groups.flatten ∧ List.Forall₂ SpellsSegment is groups := by
  induction is generalizing p with
  | nil => exact (Scanned.nil p after).scans ⟨[], rfl, .nil⟩
  | cons i is ih =>
    rw [List.forall_mem_cons] at idents
    rw [List.flatMap_cons, List.append_assoc]
    refine (Scanned.plainMark .colonColon (by decide) p _).bind ?_
    refine (Scanned.ident idents.1 (delimited_segments is delimited)).bind ?_
    refine (ih idents.2).imp ?_
    rintro _ ⟨groups, rfl, spelled⟩
    exact ⟨_ :: groups, rfl, .cons (.intro rfl ⟨rfl, rfl⟩) spelled⟩

theorem scans_name {n : ScopedName} (idents : ∀ i ∈ n.segments, IsIdent i.name)
    (delimited : Delimited after) : Scans p n.text.toList after (SpellsName n) := by
  have first : IsIdent n.first.name := idents n.first (List.mem_cons_self ..)
  have more : ∀ i ∈ n.more, IsIdent i.name := fun i mem => idents i (List.mem_cons_of_mem _ mem)
  -- the name without a mark in front
  have plain (p : Place) : Scans p (n.first.name.toList ++
      n.more.flatMap fun i => Punct.colonColon.text.toList ++ i.name.toList) after
      fun ts => ∃ t groups, ts = t :: groups.flatten ∧ Names t n.first ∧
        List.Forall₂ SpellsSegment n.more groups := by
    refine (Scanned.ident first (delimited_segments n.more delimited)).bind ?_
    refine (scans_segments more delimited).imp ?_
    rintro _ ⟨groups, rfl, spelled⟩
    exact ⟨_, groups, rfl, ⟨rfl, rfl⟩, spelled⟩
  rw [toList_name]
  cases absolute : n.absolute with
  | false =>
    refine (plain p).imp ?_
    rintro _ ⟨t, groups, rfl, names, spelled⟩
    exact .relative absolute names spelled
  | true =>
    refine (Scanned.plainMark .colonColon (by decide) p _).bind ?_
    refine (plain _).imp ?_
    rintro _ ⟨t, groups, rfl, names, spelled⟩
    exact .absolute absolute rfl names spelled

/-! Operators. -/

theorem scans_op (op : BinaryOp) (p : Place) (after : List Char) :
    Scans p op.text.toList (' ' :: after) (SpellsOp op) := by
  -- an operator of one mark
  have one (single : op ≠ .shl ∧ op ≠ .shr) (text : op.text = op.mark.text) :
      Scans p op.text.toList (' ' :: after) (SpellsOp op) := by
    rw [text]
    exact (Scanned.mark op.mark fun _ => by simp).scans (.one single rfl)
  -- an operator of two
  have two (shift : op = .shl ∨ op = .shr) (text : op.text = op.mark.text ++ op.mark.text) :
      Scans p op.text.toList (' ' :: after) (SpellsOp op) := by
    have plain : op.mark ≠ .colon ∧ op.mark ≠ .slash := by
      obtain rfl | rfl := shift <;> decide
    rw [text, String.toList_append]
    refine (Scanned.plainMark op.mark plain p _).bind ?_
    refine (Scanned.plainMark op.mark plain _ _).scans (.two shift rfl rfl ?_)
    rw [Span.adjacent_iff, Place.stop_spanOf]
    rfl
  cases op with
  | shl => exact two (.inl rfl) rfl
  | shr => exact two (.inr rfl) rfl
  | _ => exact one (by decide) rfl

theorem scans_unaryOp (op : UnaryOp) (p : Place) (after : List Char) :
    Scans p op.text.toList after fun ts => ∃ t, ts = [t] ∧ t.kind = .punct op.mark := by
  have text : op.text = op.mark.text := by cases op <;> rfl
  have plain : op.mark ≠ .colon ∧ op.mark ≠ .slash := by cases op <;> decide
  rw [text]
  exact (Scanned.plainMark op.mark plain p after).scans ⟨_, rfl, rfl⟩

end Grammar

open Grammar in
/-- The text of an expression is scanned into tokens that render it, as an operand. -/
theorem ConstExpr.Printable.scans {e : ConstExpr} (printable : e.Printable) (p : Place)
    {after : List Char} (delimited : Delimited after) :
    Scans p e.text.toList after (Renders 6 e) := by
  induction printable generalizing p after with
  | @binary op left right span _ _ ih ih' =>
    have below : op.strength < 6 := op.strength_lt
    have text : (ConstExpr.binary op left right span none).text.toList =
        Punct.leftParen.text.toList ++ (left.text.toList ++ ([' '] ++ (op.text.toList ++
          ([' '] ++ (right.text.toList ++ Punct.rightParen.text.toList))))) := by
      simp [ConstExpr.text, Punct.text]
    rw [text]
    refine (Scanned.plainMark .leftParen (by decide) p _).bind ?_
    refine (ih _ (.cons (by decide))).bind fun ts first => ?_
    refine (Scanned.blank _ _).bind ?_
    refine (scans_op op _ _).bind fun marks spelled => ?_
    refine (Scanned.blank _ _).bind ?_
    refine (ih' _ (.cons (by decide))).bind fun us second => ?_
    refine (Scanned.plainMark .rightParen (by decide) _ after).scans ?_
    have whole : Renders 0 (.binary op left right span none) (ts ++ (marks ++ us)) :=
      .binary (Nat.zero_le _) (first.mono (Nat.le_of_lt below)) spelled (second.mono below)
    simpa using Renders.parens rfl whole rfl
  | @unary op e span _ ih =>
    rw [ConstExpr.text, String.toList_append]
    refine (scans_unaryOp op p _).bind ?_
    rintro _ ⟨t, rfl, mark⟩
    exact (ih _ delimited).imp fun ts operand => .unary mark operand
  | literal printable => exact (scans_literal printable delimited).imp fun ts => .literal
  | name idents => exact (scans_name idents delimited).imp fun ts => .name

end Idl
