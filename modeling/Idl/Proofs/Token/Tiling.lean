import Idl.Proofs.Spans.Document
import Mathlib.Data.String.Basic

/-!
Tokens tile their text: each is a stretch of it, they stand one behind the other, and nothing but
blanks, comments and directives stands between them. Main statement: `tokenize_tiles`.
-/

set_option autoImplicit false

namespace Idl

/-- Blanks, comments and directives, one behind the other. A line stays fresh in them, and a newline
begins a fresh one. -/
inductive Gap (after : List Char) : (fresh : Bool) → List Char → Prop
  | nil (fresh : Bool) : Gap after fresh []
  | cons {fresh : Bool} {piece rest : List Char} (first : Separator fresh (rest ++ after) piece)
      (more : Gap after (fresh || piece.contains '\n') rest) : Gap after fresh (piece ++ rest)

/-- A gap that goes on to the end of the text in a comment that is not closed. -/
def OpenGap (fresh : Bool) (gap : List Char) : Prop :=
  ∃ front body, gap = front ++ '/' :: '*' :: body ∧ Gap ('/' :: '*' :: body) fresh front ∧
    Unended body

/-- The token was read from the characters `word`, which stand behind `before`. -/
structure Token.Reads (t : Token) (before word : List Char) : Prop where
  inner : t.kind ≠ .eof
  nonempty : word ≠ []
  lexeme : t.lexeme = String.ofList word
  covers : t.span.Covers before word

/-- What stands behind `before` is the tokens with gaps around them. -/
inductive Tiled : (fresh : Bool) → (before : List Char) → List Token → List Char → Prop
  | last {fresh : Bool} {before gap : List Char} (silent : Gap [] fresh gap ∨ OpenGap fresh gap) :
      Tiled fresh before [] gap
  | token {fresh : Bool} {before gap word rest : List Char} {t : Token} {ts : List Token}
      (silent : Gap (word ++ rest) fresh gap) (reads : t.Reads (before ++ gap) word)
      (more : Tiled false (before ++ gap ++ word) ts rest) :
      Tiled fresh before (t :: ts) (gap ++ (word ++ rest))

theorem Token.Reads.stop {t : Token} {before word : List Char} (reads : t.Reads before word) :
    t.span.stop = Text.byteCount (before ++ word) := by
  rw [Span.stop, reads.covers.offset, reads.covers.len, Text.byteCount_append]

theorem Token.Reads.len_pos {t : Token} {before word : List Char} (reads : t.Reads before word) :
    1 ≤ t.span.len := by
  obtain ⟨c, rest, rfl⟩ := List.exists_cons_of_ne_nil reads.nonempty
  have wide := c.utf8Size_pos
  rw [reads.covers.len, Text.byteCount_cons]
  omega

namespace Tiled

variable {fresh : Bool} {before rest piece : List Char} {ts : List Token}

/-- A separator in front makes the first gap longer. -/
theorem separate (first : Separator fresh rest piece)
    (tiled : Tiled (fresh || piece.contains '\n') (before ++ piece) ts rest) :
    Tiled fresh before ts (piece ++ rest) := by
  cases tiled with
  | last silent =>
    rcases silent with silent | ⟨front, body, rfl, silent, unended⟩
    · exact .last (.inl (.cons (by rwa [List.append_nil]) silent))
    · exact .last (.inr ⟨piece ++ front, body, by simp, .cons first silent, unended⟩)
  | token silent reads more =>
    rw [← List.append_assoc]
    rw [List.append_assoc before] at reads more
    exact .token (.cons first silent) reads more

/-- Each token is a stretch of the text. -/
theorem reads (tiled : Tiled fresh before ts rest) :
    ∀ t ∈ ts, ∃ front word back, before ++ rest = front ++ word ++ back ∧ t.Reads front word := by
  induction tiled with
  | last => simp
  | @token fresh before gap word rest t ts silent reads more ih =>
    intro u mem
    rcases List.mem_cons.mp mem with rfl | mem
    · exact ⟨before ++ gap, word, rest, by simp, reads⟩
    · obtain ⟨front, word', back, eq, reads⟩ := ih u mem
      exact ⟨front, word', back, by rw [← eq]; simp, reads⟩

/-- Each token stands behind the one before it. -/
theorem apart (tiled : Tiled fresh before ts rest) :
    (∀ t ∈ ts, Text.byteCount before ≤ t.span.offset) ∧
      ts.Pairwise fun a b => a.span.stop ≤ b.span.offset := by
  induction tiled with
  | last => simp
  | @token fresh before gap word rest t ts silent reads more ih =>
    have start : Text.byteCount before ≤ t.span.offset := by
      rw [reads.covers.offset, Text.byteCount_append]
      exact Nat.le_add_right _ _
    have behind (u : Token) (mem : u ∈ ts) : t.span.stop ≤ u.span.offset := by
      rw [reads.stop]
      exact ih.1 u mem
    refine ⟨fun u mem => ?_, List.pairwise_cons.mpr ⟨behind, ih.2⟩⟩
    rcases List.mem_cons.mp mem with rfl | mem
    · exact start
    · exact Nat.le_trans start (Nat.le_trans (Nat.le_add_right _ _) (behind u mem))

end Tiled

/-- Where the last of the tokens stops, if there is one. -/
def stopOf (start : Nat) (ts : List Token) : Nat := (ts.getLast?.map (·.span.stop)).getD start

theorem stopOf_cons (start : Nat) (t : Token) (ts : List Token) :
    stopOf start (t :: ts) = stopOf t.span.stop ts := by
  cases last : ts.getLast? <;> simp [stopOf, List.getLast?_cons, last]

namespace Tiled

variable {fresh : Bool} {before rest : List Char} {ts : List Token}

/-- In front of each token there is a gap. -/
theorem gap (tiled : Tiled fresh before ts rest) {xs ys : List Token} {t : Token}
    (split : ts = xs ++ t :: ys) : ∃ front gap back, before ++ rest = front ++ gap ++ back ∧
      Text.byteCount front = stopOf (Text.byteCount before) xs ∧
      Text.byteCount (front ++ gap) = t.span.offset ∧ Gap back (xs.isEmpty && fresh) gap := by
  induction tiled generalizing xs with
  | last => simp at split
  | @token fresh before gap word rest u ts silent reads more ih =>
    cases xs with
    | nil =>
      cases split
      exact ⟨before, gap, word ++ rest, by simp, rfl, reads.covers.offset.symm, silent⟩
    | cons x xs =>
      cases split
      obtain ⟨front, gap', back, eq, start, stop, silent⟩ := ih rfl
      refine ⟨front, gap', back, by rw [← eq]; simp, ?_, stop, ?_⟩
      · rw [start, stopOf_cons, reads.stop]
      · rwa [Bool.and_false] at silent

/-- Behind the last token there is a gap too, or one that a comment leaves open. -/
theorem lastGap (tiled : Tiled fresh before ts rest) : ∃ front gap, before ++ rest = front ++ gap ∧
    Text.byteCount front = stopOf (Text.byteCount before) ts ∧
    (Gap [] (ts.isEmpty && fresh) gap ∨ OpenGap (ts.isEmpty && fresh) gap) := by
  induction tiled with
  | @last fresh before gap silent => exact ⟨before, gap, rfl, rfl, silent⟩
  | @token fresh before gap word rest t ts silent reads more ih =>
    obtain ⟨front, gap', eq, start, silent⟩ := ih
    refine ⟨front, gap', by rw [← eq]; simp, ?_, ?_⟩
    · rw [start, stopOf_cons, reads.stop]
    · rwa [Bool.and_false] at silent

end Tiled

/-! The scan. -/

theorem Lexer.tiled_scan (p : Place) (fresh : Bool) (cs : List Char) :
    ∀ before, p = Place.start.past before →
      Tiled fresh before ((scan p fresh cs).filterMap Item.token?) cs := by
  fun_induction scan p fresh cs with
  | case1 => exact fun before _ => .last (.inl (.nil _))
  | case2 p fresh c cs more found skipped ih =>
    intro before place
    have tiled := ih (before ++ skipped) (by rw [place, Place.past_append])
    have whole : c :: cs = skipped ++ cs.drop more := by simp [skipped]
    rw [whole]
    exact tiled.separate (separator_of_gap found)
  | case3 p fresh c cs found =>
    intro before place
    obtain ⟨body, eq, unended⟩ := unended_of_unclosed found
    rw [eq]
    exact .last (.inr ⟨[], body, rfl, .nil _, unended⟩)
  | case4 p fresh c cs kind more fault found lexeme ih =>
    intro before place
    obtain ⟨inner, inLine⟩ := inLine_of_piece found
    have tiled := ih (before ++ lexeme) (by rw [place, Place.past_append])
    have whole : c :: cs = lexeme ++ cs.drop more := by simp [lexeme]
    have stale : lexeme.contains '\n' = false := by simpa [lexeme] using inLine
    rw [stale] at tiled
    have reads : Token.Reads ⟨kind, String.ofList lexeme, p.spanOf lexeme⟩ before lexeme :=
      ⟨inner, List.cons_ne_nil _ _, rfl, place ▸ covers_spanOf before lexeme⟩
    rw [whole, List.filterMap_cons_some (f := Item.token?) rfl, stale]
    rw [← List.append_nil before] at reads tiled
    exact .token (.nil _) reads tiled

/-! Tokens of a text. -/

/-- The text that a span covers. -/
def Span.slice (a : Span) (text : String) : String :=
  String.Pos.Raw.extract text ⟨a.offset⟩ ⟨a.stop⟩

theorem utf8Len_eq (cs : List Char) : String.utf8Len cs = Text.byteCount cs := by
  induction cs with
  | nil => rfl
  | cons c cs ih => rw [String.utf8Len_cons, ih, Text.byteCount_cons, Nat.add_comm]

theorem Span.Covers.slice {a : Span} {before covered after : List Char} {text : String}
    (covers : a.Covers before covered) (split : text.toList = before ++ covered ++ after) :
    a.slice text = String.ofList covered := by
  have extract := String.extract_of_valid before covered after
  rw [← split, String.ofList_toList, utf8Len_eq, utf8Len_eq] at extract
  rw [Span.slice, Span.stop, covers.offset, covers.len]
  exact extract

/-- Tokens and gaps make up a text. -/
structure Tiling (text : String) (tokens : List Token) : Prop where
  /-- The last token, and no other, is the end of the text. -/
  ended : ∃ ts e, tokens = ts ++ [e] ∧ (e.kind = .eof ∧ e.span.offset = text.utf8ByteSize ∧
    e.span.len = 0) ∧ ∀ t ∈ ts, t.kind ≠ .eof ∧ 1 ≤ t.span.len
  slices : ∀ t ∈ tokens, t.lexeme = t.span.slice text
  apart : tokens.Pairwise fun a b => a.span.offset < b.span.offset ∧ a.span.stop ≤ b.span.offset
  /-- Between two tokens, and in front of the first, there is a gap. Only the end of the text may
  stand behind a comment that is not closed. -/
  gaps : ∀ before t after, tokens = before ++ t :: after →
    ∃ front gap back, text.toList = front ++ gap ++ back ∧
      Text.byteCount front = stopOf 0 before ∧ Text.byteCount (front ++ gap) = t.span.offset ∧
      (Gap back before.isEmpty gap ∨ after = [] ∧ OpenGap before.isEmpty gap)
  placed : ∀ t ∈ tokens, t.span.PointsInto text

theorem tokenize_tiles (text : String) : Tiling text (tokenize text).tokens := by
  have tiled := Lexer.tiled_scan Place.start true text.toList [] rfl
  have tokens : (tokenize text).tokens =
      (Lexer.scan Place.start true text.toList).filterMap Lexer.Item.token? ++
        [endToken text.toList] := rfl
  have lies := (lies_tokenize text).1
  generalize (Lexer.scan Place.start true text.toList).filterMap Lexer.Item.token? = ts
    at tiled tokens
  have size := utf8ByteSize_ofList text.toList
  rw [String.ofList_toList] at size
  have offset : (endToken text.toList).span.offset = Text.byteCount text.toList := by
    simp [endToken, Place.spanOf, Place.start]
  constructor
  case ended =>
    refine ⟨ts, endToken text.toList, tokens, ⟨rfl, by rw [offset, size], rfl⟩, fun t mem => ?_⟩
    obtain ⟨front, word, back, -, reads⟩ := tiled.reads t mem
    exact ⟨reads.inner, reads.len_pos⟩
  case slices =>
    intro t mem
    rw [tokens] at mem
    rcases List.mem_append.mp mem with mem | mem
    · obtain ⟨front, word, back, split, reads⟩ := tiled.reads t mem
      rw [reads.lexeme, reads.covers.slice split]
    · rw [List.mem_singleton.mp mem]
      have whole : text.toList = text.toList ++ [] ++ [] := by simp
      exact ((covers_spanOf text.toList []).slice whole).symm
  case apart =>
    have before {a : Token} {offset : Nat} (mem : a ∈ ts) (le : a.span.stop ≤ offset) :
        a.span.offset < offset ∧ a.span.stop ≤ offset := by
      obtain ⟨front, word, back, -, reads⟩ := tiled.reads a mem
      have wide := reads.len_pos
      rw [Span.stop] at le ⊢
      omega
    rw [tokens, List.pairwise_append]
    refine ⟨tiled.apart.2.imp_of_mem fun mem _ => before mem, List.pairwise_singleton _ _, ?_⟩
    intro t mem e last
    rw [List.mem_singleton.mp last, offset]
    exact before mem (lies t (tokens ▸ List.mem_append_left _ mem)).stop_le
  case gaps =>
    intro before t after split
    rw [tokens] at split
    rcases List.eq_nil_or_concat after with rfl | ⟨more, last, rfl⟩
    · obtain ⟨rfl, same⟩ := List.append_inj' split rfl
      cases same
      obtain ⟨front, gap, eq, start, silent⟩ := tiled.lastGap
      rw [List.nil_append] at eq
      rw [Bool.and_true] at silent
      refine ⟨front, gap, [], by rw [eq, List.append_nil], start, by rw [offset, eq], ?_⟩
      exact silent.imp_right fun unclosed => ⟨rfl, unclosed⟩
    · rw [List.concat_eq_append, ← List.cons_append, ← List.append_assoc] at split
      obtain ⟨front, gap, back, eq, start, stop, silent⟩ :=
        tiled.gap (List.append_inj' split rfl).1
      rw [Bool.and_true] at silent
      exact ⟨front, gap, back, eq, start, stop, .inl silent⟩
  case placed => exact fun t mem => (lies t mem).pointsInto

end Idl
