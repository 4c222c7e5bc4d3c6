import Idl.Proofs.Token.Gaps
import Mathlib.Data.List.DropRight
import Mathlib.Data.List.Infix

/-!
Spans that lie in a text: they start and stop between characters of it, at the line and column that
the characters in front tell. Main statements: `Span.LiesIn.join` and `lies_tokenize`.
-/

set_option autoImplicit false

namespace Idl

/-- The line of what follows the characters. -/
def lineAfter (cs : List Char) : Nat := 1 + cs.count '\n'

/-- The column of what follows the characters: they count from the last newline on. -/
def columnAfter (cs : List Char) : Nat := 1 + (cs.rtakeWhile (· ≠ '\n')).length

/-- The span covers some of the characters, which stand behind the others. -/
structure Span.Covers (a : Span) (before covered : List Char) : Prop where
  offset : a.offset = Text.byteCount before
  len : a.len = Text.byteCount covered
  line : a.line = lineAfter before
  column : a.column = columnAfter before

/-- The span covers a stretch of the text. -/
def Span.LiesIn (a : Span) (text : List Char) : Prop :=
  ∃ before covered after, text = before ++ covered ++ after ∧ a.Covers before covered

/-! Places. -/

theorem past_start (cs : List Char) :
    Place.start.past cs = ⟨Text.byteCount cs, lineAfter cs, columnAfter cs⟩ := by
  induction cs using List.reverseRecOn with
  | nil => rfl
  | append_singleton cs c ih =>
    rw [Place.past_append, ih, Place.past_cons, Place.past_nil, Place.step]
    by_cases newline : c = '\n'
    · simp [newline, lineAfter, columnAfter]
      omega
    · simp [newline, lineAfter, columnAfter]
      omega

theorem covers_spanOf (before covered : List Char) :
    ((Place.start.past before).spanOf covered).Covers before covered := by
  rw [past_start]
  exact ⟨rfl, rfl, rfl, rfl⟩

/-! Prefixes of a text. -/

/-- Prefixes of one text are ordered by their bytes. -/
theorem prefix_of_byteCount_le {text xs ys : List Char} (left : xs <+: text) (right : ys <+: text)
    (le : Text.byteCount xs ≤ Text.byteCount ys) : xs <+: ys := by
  rcases List.prefix_or_prefix_of_prefix left right with before | ⟨more, eq⟩
  · exact before
  · -- a prefix with no more bytes is no shorter
    cases more with
    | nil => rw [← eq, List.append_nil]
    | cons c more =>
      have wide := c.utf8Size_pos
      rw [← eq, Text.byteCount_append, Text.byteCount_cons] at le
      omega

theorem lineAfter_append (xs ys : List Char) :
    lineAfter (xs ++ ys) = lineAfter xs + ys.count '\n' := by
  rw [lineAfter, lineAfter, List.count_append, Nat.add_assoc]

/-- On one line, columns count characters. -/
theorem columnAfter_append (xs : List Char) {ys : List Char} (inLine : '\n' ∉ ys) :
    columnAfter (xs ++ ys) = columnAfter xs + ys.length := by
  induction ys using List.reverseRecOn with
  | nil => simp
  | append_singleton ys c ih =>
    rw [List.mem_append, not_or, List.mem_singleton] at inLine
    have kept : ((xs ++ ys) ++ [c]).rtakeWhile (· ≠ '\n') =
        (xs ++ ys).rtakeWhile (· ≠ '\n') ++ [c] :=
      List.rtakeWhile_concat_pos _ _ _ (by simpa using Ne.symm inLine.2)
    have before := ih inLine.1
    rw [columnAfter] at before ⊢
    rw [← List.append_assoc, kept, List.length_append, List.length_append]
    simp only [List.length_singleton]
    omega

/-! Spans. -/

/-- The first span is on an earlier line, or on the same line and not behind the second. -/
def Span.NotAfter (a b : Span) : Prop := a.line < b.line ∨ a.line = b.line ∧ a.column ≤ b.column

namespace Span.LiesIn

variable {text : List Char} {a b : Span}

theorem stop_le (lies : a.LiesIn text) : a.stop ≤ Text.byteCount text := by
  obtain ⟨before, covered, after, rfl, covers⟩ := lies
  rw [Span.stop, covers.offset, covers.len, Text.byteCount_append, Text.byteCount_append]
  omega

/-- A span, stretched up to where another stops. -/
theorem stretch (left : a.LiesIn text) (right : b.LiesIn text) :
    LiesIn ⟨a.offset, max a.stop b.stop - a.offset, a.line, a.column⟩ text := by
  obtain ⟨before, covered, after, eq, covers⟩ := left
  obtain ⟨before', covered', after', eq', covers'⟩ := right
  have stop : a.stop = Text.byteCount (before ++ covered) := by
    rw [Span.stop, covers.offset, covers.len, Text.byteCount_append]
  have stop' : b.stop = Text.byteCount (before' ++ covered') := by
    rw [Span.stop, covers'.offset, covers'.len, Text.byteCount_append]
  by_cases shorter : a.stop ≤ b.stop
  · have front : before <+: text := ⟨covered ++ after, by rw [eq]; simp⟩
    have inside : before <+: before' ++ covered' := by
      apply prefix_of_byteCount_le front ⟨after', eq'.symm⟩
      rw [← stop', ← covers.offset]
      exact Nat.le_trans (Nat.le_add_right _ _) shorter
    obtain ⟨stretched, whole⟩ := inside
    refine ⟨before, stretched, after', by rw [whole, eq'], covers.offset, ?_, covers.line,
      covers.column⟩
    dsimp only
    rw [Nat.max_eq_right shorter, stop', ← whole, Text.byteCount_append, covers.offset]
    omega
  · refine ⟨before, covered, after, eq, covers.offset, ?_, covers.line, covers.column⟩
    dsimp only
    rw [Nat.max_eq_left (by omega), Span.stop, ← covers.len]
    omega

/-- What covers two stretches of a text covers a stretch of it. -/
theorem join (left : a.LiesIn text) (right : b.LiesIn text) : (a.join b).LiesIn text := by
  rw [Span.join]
  split
  · exact stretch left right
  · rw [Nat.max_comm]
    exact stretch right left

/-- Offsets are in the order of lines and columns. -/
theorem notAfter (left : a.LiesIn text) (right : b.LiesIn text) (le : a.offset ≤ b.offset) :
    a.NotAfter b := by
  obtain ⟨before, covered, after, eq, covers⟩ := left
  obtain ⟨before', covered', after', eq', covers'⟩ := right
  have front : before <+: text := ⟨covered ++ after, by rw [eq]; simp⟩
  have front' : before' <+: text := ⟨covered' ++ after', by rw [eq']; simp⟩
  rw [covers.offset, covers'.offset] at le
  obtain ⟨between, rfl⟩ := prefix_of_byteCount_le front front' le
  rw [Span.NotAfter, covers.line, covers'.line, lineAfter_append, covers.column, covers'.column]
  by_cases newline : '\n' ∈ between
  · have some := List.count_pos_iff.mpr newline
    omega
  · rw [columnAfter_append before newline, List.count_eq_zero.mpr newline]
    omega

end Span.LiesIn

/-! Tokens. -/

namespace Lexer

/-- The place of an item. -/
def Item.span : Item → Span
  | .token t _ => t.span
  | .openComment span => span

/-- What is read behind `before` lies in the text. -/
theorem lies_scan {text : List Char} (p : Place) (lineStart : Bool) (cs : List Char) :
    ∀ before, text = before ++ cs → p = Place.start.past before →
      ∀ i ∈ scan p lineStart cs, i.span.LiesIn text := by
  fun_induction scan p lineStart cs with
  | case1 => simp
  | case2 p lineStart c cs more found skipped ih =>
    intro before front place
    exact ih (before ++ skipped) (by rw [front]; simp [skipped]) (by rw [place, Place.past_append])
  | case3 p lineStart c cs found =>
    intro before front place i mem
    obtain ⟨more, mark, -⟩ := unended_of_unclosed found
    rw [List.mem_singleton.mp mem, place]
    exact ⟨before, ['/', '*'], more, by rw [front, mark]; simp, covers_spanOf before ['/', '*']⟩
  | case4 p lineStart c cs kind more fault found lexeme ih =>
    intro before front place i mem
    have split : text = before ++ lexeme ++ cs.drop more := by rw [front]; simp [lexeme]
    rcases List.mem_cons.mp mem with rfl | mem
    · rw [place]
      exact ⟨before, lexeme, cs.drop more, split, covers_spanOf before lexeme⟩
    · exact ih (before ++ lexeme) split (by rw [place, Place.past_append]) i mem

end Lexer

theorem lies_endToken (cs : List Char) : (endToken cs).span.LiesIn cs :=
  ⟨cs, [], [], by simp, covers_spanOf cs []⟩

/-- Tokens and faults lie in the text that they were read from. -/
theorem lies_tokenize (text : String) :
    (∀ t ∈ (tokenize text).tokens, t.span.LiesIn text.toList) ∧
      ∀ e ∈ (tokenize text).errors, e.span.LiesIn text.toList := by
  have items := Lexer.lies_scan Place.start true text.toList [] rfl rfl
  constructor
  · intro t mem
    rcases List.mem_append.mp mem with mem | mem
    · obtain ⟨i, mem, eq⟩ := List.mem_filterMap.mp mem
      cases i with
      | token u fault => exact Option.some.inj eq ▸ items _ mem
      | openComment span => cases eq
    · rw [List.mem_singleton.mp mem]
      exact lies_endToken _
  · intro e mem
    obtain ⟨i, mem, eq⟩ := List.mem_filterMap.mp mem
    have lies := items i mem
    cases i with
    | token u fault =>
      obtain ⟨fault, rfl, rfl⟩ := Option.map_eq_some_iff.mp eq
      exact lies
    | openComment span =>
      cases eq
      exact lies

end Idl
