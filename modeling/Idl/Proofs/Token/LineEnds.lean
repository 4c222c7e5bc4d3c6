import Idl.Proofs.Token.Scanned
import Mathlib

/-!
Ends of lines do not matter. A text without faults has the same tokens at the same lines and columns
when a carriage return is put in front of each newline. Main statement: `tokenize_withReturns`.
-/

set_option autoImplicit false

namespace Idl

/-- The text with a carriage return in front of each newline. -/
def withReturns (cs : List Char) : List Char :=
  cs.flatMap fun c => if c = '\n' then ['\r', '\n'] else [c]

@[simp] theorem withReturns_nil : withReturns [] = [] := rfl

@[simp] theorem withReturns_newline (cs : List Char) :
    withReturns ('\n' :: cs) = '\r' :: '\n' :: withReturns cs := rfl

theorem withReturns_cons {c : Char} (other : c ≠ '\n') (cs : List Char) :
    withReturns (c :: cs) = c :: withReturns cs := by
  simp [withReturns, other]

@[simp] theorem withReturns_eq_nil {cs : List Char} : withReturns cs = [] ↔ cs = [] := by
  cases cs with
  | nil => simp
  | cons c cs =>
    by_cases newline : c = '\n'
    · simp [newline]
    · simp [withReturns_cons newline]

theorem withReturns_append (xs ys : List Char) :
    withReturns (xs ++ ys) = withReturns xs ++ withReturns ys := List.flatMap_append

/-- A line stays as it is. -/
theorem withReturns_line {line : List Char} (inLine : '\n' ∉ line) : withReturns line = line := by
  induction line with
  | nil => rfl
  | cons c cs ih =>
    obtain ⟨other, inLine⟩ := List.ne_and_not_mem_of_not_mem_cons inLine
    rw [withReturns_cons other.symm, ih inLine]

/-- What begins the text begins it still, or a carriage return does. -/
theorem head_withReturns (cs : List Char) :
    ∀ d ∈ (withReturns cs).head?, d = '\r' ∨ d ∈ cs.head? := by
  intro d mem
  cases cs with
  | nil => cases mem
  | cons c cs =>
    by_cases newline : c = '\n'
    · subst newline
      exact .inl (by simpa using mem.symm)
    · rw [withReturns_cons newline] at mem
      exact .inr mem

/-- The place where a text before `p` ends with a carriage return in front of each newline. The
lines tell how many there are. -/
def Place.returned (p : Place) : Place := ⟨p.offset + (p.line - 1), p.line, p.column⟩

def Token.returned (t : Token) : Token :=
  { t with span := { t.span with offset := t.span.offset + (t.span.line - 1) } }

theorem Place.line_step (p : Place) (c : Char) : p.line ≤ (p.step c).line := by
  rw [step]
  split <;> simp

theorem Place.line_past (p : Place) (cs : List Char) : p.line ≤ (p.past cs).line := by
  induction cs generalizing p with
  | nil => exact Nat.le_refl _
  | cons c cs ih => exact Nat.le_trans (p.line_step c) (ih (p.step c))

theorem Place.past_returned {p : Place} (valid : 1 ≤ p.line) (cs : List Char) :
    p.returned.past (withReturns cs) = (p.past cs).returned := by
  induction cs generalizing p with
  | nil => rfl
  | cons c cs ih =>
    have further := Nat.le_trans valid (p.line_step c)
    by_cases newline : c = '\n'
    · subst newline
      have two : (p.returned.step '\r').step '\n' = (p.step '\n').returned := by
        have size : ('\r' : Char).utf8Size = 1 ∧ ('\n' : Char).utf8Size = 1 := by decide
        simp only [step, returned, size, Char.reduceEq, if_true, if_false, mk.injEq, and_true]
        omega
      rw [withReturns_newline, past_cons, past_cons, past_cons, two, ih further]
    · have one : p.returned.step c = (p.step c).returned := by
        simp only [step, returned, newline, if_false, mk.injEq, and_true]
        omega
      rw [withReturns_cons newline, past_cons, past_cons, one, ih further]

namespace Lexer

/-- A carriage return in front of the text is skipped. -/
theorem scan_return {extra : List Char} (single : extra = [] ∨ extra = ['\r']) (p : Place)
    (fresh : Bool) (after : List Char) :
    scan p fresh (extra ++ after) = scan (p.past extra) fresh after := by
  rcases single with rfl | rfl
  · rfl
  · have gap : piece fresh '\r' after = .gap 0 := rfl
    rw [List.singleton_append, scan_gap gap]
    simp

/-! Gaps. -/

theorem lineComment?_line {line after : List Char} (inLine : ∀ c ∈ line, c ≠ '\r' ∧ c ≠ '\n')
    (ends : AtLineEnd after) :
    Shape.lineComment? ('/' :: '/' :: (line ++ after)) = some (2 + line.length) := by
  have within : ∀ c ∈ line, (c != '\r' && c != '\n') = true := by simpa using inLine
  have stop : ∀ c ∈ after.head?, (c != '\r' && c != '\n') = false := by
    rintro c mem
    rcases ends with rfl | ⟨rest, rfl | rfl⟩
    · cases mem
    · obtain rfl : '\n' = c := by simpa using mem
      decide
    · obtain rfl : '\r' = c := by simpa using mem
      decide
  rw [Shape.lineComment?, Shape.run_append within stop, List.drop_left]
  rcases ends with rfl | ⟨rest, rfl | rfl⟩ <;> rfl

theorem commentEnd?_withReturns (cs : List Char) :
    Shape.commentEnd? (withReturns cs) =
      (Shape.commentEnd? cs).map fun n => (withReturns (cs.take n)).length := by
  fun_induction Shape.commentEnd? cs with
  | case1 tail =>
    rw [withReturns_cons (by decide), withReturns_cons (by decide), Shape.commentEnd?]
    rfl
  | case2 c cs unmarked ih =>
    have count (m : Nat) : (c :: cs).take (1 + m) = c :: cs.take m := by
      rw [Nat.add_comm, List.take_succ_cons]
    simp only [Option.map_map, Function.comp_def, count]
    by_cases newline : c = '\n'
    · subst newline
      rw [withReturns_newline, Shape.commentEnd?, Shape.commentEnd?, ih]
      · simp only [Option.map_map, Function.comp_def, withReturns_newline, List.length_cons]
        congr 1
        funext m
        omega
      · exact fun _ star _ => absurd star (by decide)
      · exact fun _ star _ => absurd star (by decide)
    · have apart : ∀ tail, c = '*' → withReturns cs = '/' :: tail → False := by
        intro tail star mark
        rcases head_withReturns cs '/' (by rw [mark]; rfl) with other | first
        · exact absurd other (by decide)
        · obtain ⟨rest, rfl⟩ := List.head?_eq_some_iff.mp first
          exact unmarked rest star rfl
      rw [withReturns_cons newline, Shape.commentEnd?, ih]
      · simp only [Option.map_map, Function.comp_def, withReturns_cons newline, List.length_cons]
        congr 1
        funext m
        omega
      · exact apart
  | case3 => rfl

/-- A directive without a newline is all of the text. -/
theorem directive_line {line : List Char} (inLine : '\n' ∉ line) :
    Shape.directive line = line.length := by
  have within : ∀ c ∈ line, (c != '\n') = true := by
    intro c mem
    simpa using ne_of_mem_of_not_mem mem inLine
  have count : Shape.restOfLine line = line.length := by
    have stop : ∀ c ∈ ([] : List Char).head?, (c != '\n') = false := by simp
    have run := Shape.run_append within stop
    rwa [List.append_nil] at run
  rw [Shape.directive, count, List.drop_length]

theorem directive_lines {line more : List Char} (inLine : '\n' ∉ line) :
    Shape.directive (line ++ '\n' :: more) =
      if more ≠ [] ∧ (Text.dropEndBlanks line).getLast? = some '\\' then
        line.length + 1 + Shape.directive more
      else line.length := by
  have within : ∀ c ∈ line, (c != '\n') = true := by
    intro c mem
    simpa using ne_of_mem_of_not_mem mem inLine
  have count : Shape.restOfLine (line ++ '\n' :: more) = line.length := by
    apply Shape.run_append within
    intro c mem
    obtain rfl : '\n' = c := by simpa using mem
    decide
  rw [Shape.directive, count, List.drop_left, List.take_left]
  cases more with
  | nil => simp
  | cons d ds => simp

/-- A directive ends at the same newline. A carriage return in front of it belongs to the
directive. -/
theorem directive_withReturns (cs : List Char) :
    ∃ extra after, (extra = [] ∨ extra = ['\r']) ∧
      withReturns (cs.drop (Shape.directive cs)) = extra ++ after ∧
      Shape.directive (withReturns cs) =
        (withReturns (cs.take (Shape.directive cs)) ++ extra).length := by
  induction size : cs.length using Nat.strongRecOn generalizing cs with
  | ind n ih =>
    by_cases mem : '\n' ∈ cs
    · obtain ⟨line, more, rfl, inLine⟩ := List.eq_append_cons_of_mem mem
      have whole : withReturns (line ++ '\n' :: more) =
          line ++ ['\r'] ++ '\n' :: withReturns more := by
        rw [withReturns_append, withReturns_line inLine]
        simp
      have inLine' : '\n' ∉ line ++ ['\r'] := by simpa using inLine
      have ends : Text.dropEndBlanks (line ++ ['\r']) = Text.dropEndBlanks line := by
        have blank : Text.isBlank '\r' = true := by decide
        simp [Text.dropEndBlanks, blank]
      rw [whole]
      simp only [directive_lines inLine', directive_lines inLine, ends, ne_eq, withReturns_eq_nil]
      split
      · next goes =>
        obtain ⟨extra, after, single, rest, count⟩ :=
          ih more.length (by simp at size; omega) more rfl
        have drop : (line ++ '\n' :: more).drop (line.length + 1 + Shape.directive more) =
            more.drop (Shape.directive more) := by
          rw [Nat.add_assoc, List.drop_append, Nat.add_comm 1]
          simp
        have take : (line ++ '\n' :: more).take (line.length + 1 + Shape.directive more) =
            line ++ '\n' :: more.take (Shape.directive more) := by
          rw [Nat.add_assoc, List.take_append, Nat.add_comm 1]
          simp
        refine ⟨extra, after, single, by rw [drop, rest], ?_⟩
        rw [take, withReturns_append, withReturns_line inLine, withReturns_newline, count]
        simp
        omega
      · refine ⟨['\r'], '\n' :: withReturns more, .inr rfl, by simp, ?_⟩
        rw [List.take_left, withReturns_line inLine]
    · refine ⟨[], [], .inl rfl, ?_, ?_⟩
      · rw [directive_line mem, List.drop_length]
        rfl
      · rw [directive_line mem, List.take_length, withReturns_line mem, directive_line mem]
        simp

section

variable {fresh : Bool} {c : Char} {cs : List Char} {more : Nat}

theorem contains_withReturns (cs : List Char) :
    (withReturns cs).contains '\n' = cs.contains '\n' := by
  induction cs with
  | nil => rfl
  | cons c cs ih =>
    by_cases newline : c = '\n'
    · subst newline
      simp
    · rw [withReturns_cons newline, List.contains_cons, List.contains_cons, ih]

/-- A gap is skipped that covers what was skipped before, and perhaps the carriage return behind
it. -/
theorem scan_of_gap (c : Char) (cs : List Char) (more : Nat) (extra : List Char)
    {skipped rest after : List Char} (found : piece fresh c cs = .gap more)
    (split : c :: cs = withReturns (skipped ++ rest)) (single : extra = [] ∨ extra = ['\r'])
    (behind : withReturns rest = extra ++ after)
    (count : more + 1 = (withReturns skipped ++ extra).length) (p : Place) :
    scan p fresh (withReturns (skipped ++ rest)) =
      scan (p.past (withReturns skipped)) (fresh || skipped.contains '\n') (withReturns rest) := by
  have whole : c :: cs = withReturns skipped ++ extra ++ after := by
    rw [split, withReturns_append, behind, List.append_assoc]
  have taken : c :: cs.take more = withReturns skipped ++ extra := by
    rw [← List.take_succ_cons, count, whole, List.take_left]
  have left : cs.drop more = after := by
    rw [← List.drop_succ_cons (a := c), count, whole, List.drop_left]
  have same : (withReturns skipped ++ extra).contains '\n' = skipped.contains '\n' := by
    rw [List.contains_append, contains_withReturns]
    rcases single with rfl | rfl <;> simp
  rw [← split, scan_gap found, taken, left, same, Place.past_append, behind, scan_return single]

theorem piece_comment (fresh : Bool) {tail : List Char} {count : Nat}
    (ended : Shape.commentEnd? tail = some count) :
    piece fresh '/' ('*' :: tail) = .gap (1 + count) := by
  have noLine : Shape.lineComment? ('/' :: '*' :: tail) = none := rfl
  simp [piece, noLine, ended, Text.isBlank]

theorem piece_unclosed (fresh : Bool) {tail : List Char}
    (missing : Shape.commentEnd? tail = none) : piece fresh '/' ('*' :: tail) = .unclosed := by
  have noLine : Shape.lineComment? ('/' :: '*' :: tail) = none := rfl
  simp [piece, noLine, missing, Text.isBlank]

theorem scan_withReturns_blank (blank : Text.isBlank c = true) (p : Place) :
    scan p fresh (withReturns (c :: cs)) =
      scan (p.past (withReturns [c])) (fresh || [c].contains '\n') (withReturns cs) := by
  by_cases newline : c = '\n'
  · subst newline
    have blankLine : piece fresh '\n' (withReturns cs) = .gap 0 := rfl
    rw [withReturns_newline, ← List.singleton_append, scan_return (.inr rfl), scan_gap blankLine]
    simp
  · show scan p fresh (withReturns ([c] ++ cs)) = _
    apply scan_of_gap c (withReturns cs) 0 []
    · rw [piece, if_pos blank]
    · exact (withReturns_cons newline cs).symm
    · exact .inl rfl
    · rfl
    · simp [withReturns_cons newline]

theorem scan_withReturns_directive (start : fresh = true) (p : Place) :
    let line := ('#' :: cs).take (Shape.directive ('#' :: cs))
    let rest := ('#' :: cs).drop (Shape.directive ('#' :: cs))
    scan p fresh (withReturns ('#' :: cs)) =
      scan (p.past (withReturns line)) (fresh || line.contains '\n') (withReturns rest) := by
  intro line rest
  obtain ⟨extra, after, single, behind, count⟩ := directive_withReturns ('#' :: cs)
  have hash : withReturns ('#' :: cs) = '#' :: withReturns cs := withReturns_cons (by decide) cs
  have whole : line ++ rest = '#' :: cs := List.take_append_drop _ _
  rw [hash] at count
  rw [← whole]
  apply scan_of_gap '#' (withReturns cs) (Shape.directive ('#' :: withReturns cs) - 1) extra
  · rw [piece, start]
    rfl
  · rw [whole, hash]
  · exact single
  · exact behind
  · rw [← count]
    exact Nat.sub_add_cancel (directive_pos _)

theorem scan_withReturns_lineComment {body after : List Char}
    (inLine : ∀ d ∈ body, d ≠ '\r' ∧ d ≠ '\n') (ends : AtLineEnd after) (plain : '\r' ∉ after)
    (p : Place) :
    scan p fresh (withReturns ('/' :: '/' :: body ++ after)) =
      scan (p.past (withReturns ('/' :: '/' :: body)))
        (fresh || ('/' :: '/' :: body).contains '\n') (withReturns after) := by
  have line : '\n' ∉ '/' :: '/' :: body := by
    simpa using fun mem => (inLine _ mem).2 rfl
  have ends' : AtLineEnd (withReturns after) := by
    rcases ends with rfl | ⟨rest, rfl | rfl⟩
    · exact .inl rfl
    · exact .inr ⟨withReturns rest, .inr rfl⟩
    · exact absurd (by simp) plain
  apply scan_of_gap '/' ('/' :: (body ++ withReturns after)) (1 + body.length) []
  · have comment := lineComment?_line inLine ends'
    have count : 2 + body.length - 1 = 1 + body.length := by omega
    rw [piece, comment, ← count]
    rfl
  · rw [withReturns_append, withReturns_line line]
    rfl
  · exact .inl rfl
  · rfl
  · rw [List.append_nil, withReturns_line line]
    simp
    omega

theorem scan_withReturns_blockComment {tail : List Char} {count : Nat}
    (ended : Shape.commentEnd? tail = some count) (p : Place) :
    scan p fresh (withReturns ('/' :: '*' :: tail)) =
      scan (p.past (withReturns ('/' :: '*' :: tail.take count)))
        (fresh || ('/' :: '*' :: tail.take count).contains '\n')
        (withReturns (tail.drop count)) := by
  have mark (text : List Char) :
      withReturns ('/' :: '*' :: text) = '/' :: '*' :: withReturns text := by
    rw [withReturns_cons (by decide), withReturns_cons (by decide)]
  have whole : '/' :: '*' :: tail.take count ++ tail.drop count = '/' :: '*' :: tail := by
    rw [List.cons_append, List.cons_append, List.take_append_drop]
  have ended' := commentEnd?_withReturns tail
  rw [ended] at ended'
  rw [← whole]
  apply scan_of_gap '/' ('*' :: withReturns tail)
    (1 + (withReturns (tail.take count)).length) []
  · exact piece_comment fresh ended'
  · rw [whole, mark]
  · exact .inl rfl
  · rfl
  · rw [List.append_nil, mark]
    simp
    omega

/-- What is skipped is skipped with its carriage returns. -/
theorem scan_withReturns_gap (found : piece fresh c cs = .gap more) (plain : '\r' ∉ cs)
    (p : Place) :
    scan p fresh (withReturns (c :: cs)) =
      scan (p.past (withReturns (c :: cs.take more)))
        (fresh || (c :: cs.take more).contains '\n') (withReturns (cs.drop more)) := by
  rcases cases_of_gap found with ⟨blank, rfl⟩ | ⟨rfl, start, rfl⟩ |
    ⟨body, after, rfl, rfl, rfl, inLine, ends⟩ | ⟨tail, count, rfl, rfl, rfl, ended⟩
  · exact scan_withReturns_blank blank p
  · rw [← take_cons_pred (directive_pos cs), ← drop_cons_pred (directive_pos cs) '#']
    exact scan_withReturns_directive start p
  · rw [Nat.add_comm, List.take_succ_cons, List.take_left, List.drop_succ_cons, List.drop_left]
    apply scan_withReturns_lineComment inLine ends
    simpa using fun mem => plain (by simp [mem])
  · rw [Nat.add_comm, List.take_succ_cons, List.drop_succ_cons]
    exact scan_withReturns_blockComment ended p

/-- Behind a slash that is a token stands nothing that would make a comment of it. -/
theorem noComment_of_piece {kind : TokenKind} {fault : Option LexFault}
    (found : piece fresh '/' cs = .token kind more fault) (plain : '\r' ∉ cs) :
    ∀ d ∈ cs.head?, d ≠ '/' ∧ d ≠ '*' := by
  intro d mem
  obtain ⟨tail, rfl⟩ := List.head?_eq_some_iff.mp mem
  constructor
  · rintro rfl
    obtain ⟨line, after, rfl, inLine, ends⟩ : ∃ line after, tail = line ++ after ∧
        '\n' ∉ line ∧ AtLineEnd after := by
      by_cases newline : '\n' ∈ tail
      · obtain ⟨line, rest, rfl, inLine⟩ := List.eq_append_cons_of_mem newline
        exact ⟨line, '\n' :: rest, rfl, inLine, .inr ⟨rest, .inl rfl⟩⟩
      · exact ⟨tail, [], by simp, newline, .inl rfl⟩
    have visible : ∀ c ∈ line, c ≠ '\r' ∧ c ≠ '\n' := by
      intro c mem
      constructor
      · rintro rfl
        exact plain (by simp [mem])
      · rintro rfl
        exact inLine mem
    have comment := lineComment?_line visible ends
    rw [piece, comment] at found
    cases found
  · rintro rfl
    cases ended : Shape.commentEnd? tail with
    | some count => cases (piece_comment fresh ended).symm.trans found
    | none => cases (piece_unclosed fresh ended).symm.trans found

/-- A token without a fault is read as before. -/
theorem scan_withReturns_token {kind : TokenKind} (found : piece fresh c cs = .token kind more none)
    (plain : '\r' ∉ cs) (p : Place) :
    scan p fresh (withReturns (c :: cs)) =
      .token ⟨kind, String.ofList (c :: cs.take more), p.spanOf (c :: cs.take more)⟩ none ::
        scan (p.past (c :: cs.take more)) ((c :: cs.take more).contains '\n')
          (withReturns (cs.drop more)) := by
  obtain ⟨text, rest, rfl, rfl, lexical, ends⟩ := lexical_of_piece found
  have inLine := (inLine_of_piece found).2
  rw [List.take_left] at inLine
  have split : withReturns (c :: (text ++ rest)) = c :: (text ++ withReturns rest) := by
    rw [← List.cons_append, withReturns_append, withReturns_line inLine]
    rfl
  have found' : piece fresh c (text ++ withReturns rest) = .token kind text.length none := by
    apply piece_append fresh lexical
    · intro d mem
      rcases head_withReturns rest d mem with rfl | mem
      · exact endsToken_of_isBlank (by decide) _ _
      · exact ends d mem
    · rintro rfl d mem
      obtain ⟨-, rfl⟩ := (head_of_lexical lexical).2.2 rfl
      rcases head_withReturns rest d mem with rfl | mem
      · decide
      · exact noComment_of_piece found plain d mem
  rw [split, scan_token found', List.take_left, List.take_left, List.drop_left, List.drop_left]

end

theorem scan_withReturns {p : Place} (valid : 1 ≤ p.line) (fresh : Bool) {cs : List Char}
    (plain : '\r' ∉ cs) (clean : (scan p fresh cs).filterMap Item.error? = []) :
    scan p.returned fresh (withReturns cs) =
      ((scan p fresh cs).filterMap Item.token?).map (Item.token ·.returned none) := by
  fun_induction scan p fresh cs with
  | case1 => exact scan_nil _ _
  | case2 p fresh c cs more found skipped ih =>
    have plain' : '\r' ∉ cs := fun mem => plain (List.mem_cons_of_mem c mem)
    rw [scan_withReturns_gap found plain', Place.past_returned valid]
    apply ih
    · exact Nat.le_trans valid (p.line_past skipped)
    · exact fun mem => plain' (List.mem_of_mem_drop mem)
    · exact clean
  | case3 p fresh c cs found => cases clean
  | case4 p fresh c cs kind more fault found lexeme ih =>
    cases fault with
    | some f => cases clean
    | none =>
      have plain' : '\r' ∉ cs := fun mem => plain (List.mem_cons_of_mem c mem)
      have inLine : '\n' ∉ lexeme := (inLine_of_piece found).2
      have further := Place.past_returned valid lexeme
      rw [withReturns_line inLine] at further
      have rest := ih (Nat.le_trans valid (p.line_past lexeme))
        (fun mem => plain' (List.mem_of_mem_drop mem)) clean
      rw [scan_withReturns_token found plain', further, rest]
      rfl

end Lexer

/-- The tokens of a text without faults are the same, at the same lines and columns, when its lines
end in a carriage return and a newline. Each stands one byte further for each line before it. -/
theorem tokenize_withReturns {text : String} (plain : '\r' ∉ text.toList)
    (clean : (tokenize text).errors = []) :
    tokenize (String.ofList (withReturns text.toList)) =
      ⟨(tokenize text).tokens.map Token.returned, []⟩ := by
  have scanned := Lexer.scan_withReturns (p := Place.start) (Nat.le_refl 1) true plain clean
  have last : endToken (withReturns text.toList) = (endToken text.toList).returned := by
    have place : Place.start.past (withReturns text.toList) =
        (Place.start.past text.toList).returned :=
      Place.past_returned (p := Place.start) (Nat.le_refl 1) _
    rw [endToken, place]
    rfl
  have start : Place.start.returned = Place.start := rfl
  rw [start] at scanned
  simp [tokenize, scanned, last, List.filterMap_map, Function.comp_def, Lexer.Item.token?,
    Lexer.Item.error?]

/-- A directive on three lines, comments of both kinds, and tokens at the ends of lines. -/
def linedText : String := "#if \\\n a\\ \n\nX/*\n*/ L'\\''//c\n\n/\n:://"

theorem tokenize_withReturns_lined :
    let lexed := tokenize (String.ofList (withReturns linedText.toList))
    '\r' ∉ linedText.toList ∧ (tokenize linedText).errors = [] ∧ lexed.errors = [] ∧
      lexed.tokens.map (fun t => (t.lexeme, t.span.offset, t.span.line, t.span.column)) =
        [("X", 15, 4, 1), ("L'\\''", 23, 5, 4), ("/", 35, 7, 1), ("::", 38, 8, 1),
          ("", 42, 8, 5)] := by
  intro lexed
  have plain : '\r' ∉ linedText.toList := by decide
  have clean : (tokenize linedText).errors = [] := by decide +kernel
  have same : lexed = ⟨(tokenize linedText).tokens.map Token.returned, []⟩ :=
    tokenize_withReturns plain clean
  rw [same]
  exact ⟨plain, clean, rfl, by decide +kernel⟩

end Idl
