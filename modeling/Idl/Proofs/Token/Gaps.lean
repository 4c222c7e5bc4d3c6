import Idl.Proofs.Token.Fine
import Mathlib.Data.List.DropRight
import Mathlib.Data.List.Infix

/-!
What stands between tokens: blanks, comments and directives, said without the scanner. Main
statements: `Lexer.separator_of_gap` and `Lexer.inLine_token`.
-/

set_option autoImplicit false

namespace Idl

/-- The line ends in a backslash, blanks apart. -/
def Continued (line : List Char) : Prop :=
  ∃ front blanks, line = front ++ '\\' :: blanks ∧ ∀ c ∈ blanks, Text.isBlank c = true

/-- The lines of a directive from some line on, with `after` behind them. A continued line takes the
next one with it, unless the text has none. -/
inductive DirectiveLines (after : List Char) : List Char → Prop
  | last {line : List Char} (inLine : '\n' ∉ line)
      (ends : after = [] ∨ ∃ rest, after = '\n' :: rest ∧ (Continued line → rest = [])) :
      DirectiveLines after line
  | next {line more : List Char} (inLine : '\n' ∉ line) (continued : Continued line)
      (follows : more ++ after ≠ []) (rest : DirectiveLines after more) :
      DirectiveLines after (line ++ '\n' :: more)

/-- The text is at its end, or at the end of a line. -/
def AtLineEnd (text : List Char) : Prop :=
  text = [] ∨ ∃ rest, text = '\n' :: rest ∨ text = '\r' :: '\n' :: rest

/-- The mark that ends a block comment is not in the text. -/
def Unended (text : List Char) : Prop := ¬ ['*', '/'] <:+: text

/-- One blank, comment or directive, with `after` behind it. A directive needs a `fresh` line: one
that has had no token. -/
inductive Separator (fresh : Bool) (after : List Char) : List Char → Prop
  | blank {c : Char} (blank : Text.isBlank c = true) : Separator fresh after [c]
  | lineComment {body : List Char} (inLine : ∀ c ∈ body, c ≠ '\r' ∧ c ≠ '\n')
      (ends : AtLineEnd after) : Separator fresh after ('/' :: '/' :: body)
  | blockComment {body : List Char} (unended : Unended body) :
      Separator fresh after ('/' :: '*' :: (body ++ ['*', '/']))
  | directive {more : List Char} (start : fresh = true)
      (lines : DirectiveLines after ('#' :: more)) : Separator fresh after ('#' :: more)

/-- Where the mark begins neither here nor further on, it is not in the text. -/
theorem Unended.cons {c : Char} {cs : List Char} (unmarked : ∀ tail, c = '*' → cs ≠ '/' :: tail)
    (rest : Unended cs) : Unended (c :: cs) := by
  intro mark
  rcases List.infix_cons_iff.mp mark with ⟨tail, eq⟩ | mark
  · obtain ⟨first, second⟩ := List.cons.inj eq
    exact unmarked tail first.symm second.symm
  · exact rest mark

namespace Lexer

/-! Shapes of gaps. -/

theorem drop_run (p : Char → Bool) (cs : List Char) :
    cs.drop (Shape.run p cs) = cs.dropWhile p := by
  have split : cs.take (Shape.run p cs) ++ cs.drop (Shape.run p cs) =
      cs.takeWhile p ++ cs.dropWhile p := by
    rw [List.take_append_drop, List.takeWhile_append_dropWhile]
  rw [take_run] at split
  exact List.append_cancel_left split

/-- Behind a run stands a character that does not belong to it. -/
theorem not_of_drop_run {p : Char → Bool} {cs rest : List Char} {c : Char}
    (behind : cs.drop (Shape.run p cs) = c :: rest) : p c = false := by
  rw [drop_run] at behind
  have kept := List.head?_dropWhile_not p cs
  rw [behind] at kept
  simpa using kept

/-- A run leaves out what its characters are not. -/
theorem notMem_take_run {p : Char → Bool} {c : Char} (other : p c = false) (cs : List Char) :
    c ∉ cs.take (Shape.run p cs) := by
  intro mem
  rw [take_run] at mem
  have within := List.mem_takeWhile_imp mem
  rw [other] at within
  cases within

theorem continued_iff (line : List Char) :
    (Text.dropEndBlanks line).getLast? = some '\\' ↔ Continued line := by
  constructor
  · intro last
    have same : Text.dropEndBlanks line = line.rdropWhile Text.isBlank := rfl
    obtain ⟨front, eq⟩ := List.getLast?_eq_some_iff.mp last
    rw [same] at eq
    refine ⟨front, line.rtakeWhile Text.isBlank, ?_, fun c mem => List.mem_rtakeWhile_imp mem⟩
    calc line = line.rdropWhile Text.isBlank ++ line.rtakeWhile Text.isBlank :=
          List.rdropWhile_append_rtakeWhile.symm
      _ = front ++ '\\' :: line.rtakeWhile Text.isBlank := by rw [eq]; simp
  · rintro ⟨front, blanks, rfl, blank⟩
    have ends : ∀ c ∈ blanks.reverse, Text.isBlank c = true :=
      fun c mem => blank c (List.mem_reverse.mp mem)
    have slash : Text.isBlank '\\' = false := by decide
    rw [Text.dropEndBlanks, List.reverse_append, List.reverse_cons, List.append_assoc,
      List.dropWhile_append_of_pos ends]
    simp [slash]

/-- What stands behind the rest of a line begins with a newline. -/
theorem newline_of_drop_restOfLine {cs rest : List Char} {c : Char}
    (behind : cs.drop (Shape.restOfLine cs) = c :: rest) : c = '\n' := by
  simpa using not_of_drop_run behind

theorem newline_notMem_restOfLine (cs : List Char) : '\n' ∉ cs.take (Shape.restOfLine cs) :=
  notMem_take_run (by decide) cs

theorem directiveLines (cs : List Char) :
    DirectiveLines (cs.drop (Shape.directive cs)) (cs.take (Shape.directive cs)) := by
  fun_induction Shape.directive cs with
  | case1 cs n c d ds behind continues ih =>
    have newline : c = '\n' := newline_of_drop_restOfLine behind
    have line : cs.take (n + 1 + Shape.directive (d :: ds)) =
        cs.take n ++ '\n' :: (d :: ds).take (Shape.directive (d :: ds)) := by
      rw [Nat.add_assoc, List.take_add, behind, newline, Nat.add_comm 1, List.take_succ_cons]
    have rest : cs.drop (n + 1 + Shape.directive (d :: ds)) =
        (d :: ds).drop (Shape.directive (d :: ds)) := by
      rw [Nat.add_assoc, ← List.drop_drop, behind, Nat.add_comm 1, List.drop_succ_cons]
    rw [line, rest]
    refine .next (newline_notMem_restOfLine cs) ((continued_iff _).mp continues) ?_ ih
    rw [List.take_append_drop]
    exact List.cons_ne_nil d ds
  | case2 cs n c d ds behind stops =>
    have newline : c = '\n' := newline_of_drop_restOfLine behind
    refine .last (newline_notMem_restOfLine cs) (.inr ⟨d :: ds, by rw [behind, newline], ?_⟩)
    exact fun continues => absurd ((continued_iff _).mpr continues) stops
  | case3 cs n short =>
    refine .last (newline_notMem_restOfLine cs) ?_
    cases behind : cs.drop n with
    | nil => exact .inl rfl
    | cons c rest =>
      have newline : c = '\n' := newline_of_drop_restOfLine behind
      cases rest with
      | nil => exact .inr ⟨[], by rw [newline], fun _ => rfl⟩
      | cons d ds => exact absurd behind (short c d ds)

theorem commentEnd?_eq_some {cs : List Char} {n : Nat} (found : Shape.commentEnd? cs = some n) :
    ∃ body, cs.take n = body ++ ['*', '/'] ∧ Unended body := by
  fun_induction Shape.commentEnd? cs generalizing n with
  | case1 tail =>
    cases found
    exact ⟨[], rfl, by simp [Unended]⟩
  | case2 c cs unmarked ih =>
    obtain ⟨count, inside, rfl⟩ := Option.map_eq_some_iff.mp found
    obtain ⟨body, eq, unended⟩ := ih inside
    refine ⟨c :: body, by rw [Nat.add_comm, List.take_succ_cons, eq, List.cons_append], ?_⟩
    refine .cons (fun tail star slash => ?_) unended
    rw [slash, List.cons_append] at eq
    have split := List.take_append_drop count cs
    rw [eq, List.cons_append] at split
    exact unmarked _ star split.symm
  | case3 => cases found

theorem unended_of_commentEnd? {cs : List Char} (missing : Shape.commentEnd? cs = none) :
    Unended cs := by
  fun_induction Shape.commentEnd? cs with
  | case1 tail => cases missing
  | case2 c cs unmarked ih =>
    exact .cons (fun tail star slash => unmarked tail star slash)
      (ih (Option.map_eq_none_iff.mp missing))
  | case3 => simp [Unended]

theorem take_cons_pred {n : Nat} (positive : 0 < n) (c : Char) (cs : List Char) :
    (c :: cs).take n = c :: cs.take (n - 1) := by
  obtain ⟨m, rfl⟩ := Nat.exists_eq_add_of_lt positive
  simp

theorem drop_cons_pred {n : Nat} (positive : 0 < n) (c : Char) (cs : List Char) :
    (c :: cs).drop n = cs.drop (n - 1) := by
  obtain ⟨m, rfl⟩ := Nat.exists_eq_add_of_lt positive
  simp

/-- A directive covers what begins it. -/
theorem directive_pos (cs : List Char) : 0 < Shape.directive ('#' :: cs) := by
  have line : 0 < Shape.restOfLine ('#' :: cs) := by
    rw [Shape.restOfLine, Shape.run, List.takeWhile_cons_of_pos (by decide)]
    exact Nat.succ_pos _
  rw [Shape.directive]
  split
  · split
    · omega
    · exact line
  · exact line

/-- A line comment goes up to where its line ends. -/
theorem exists_of_lineComment? {cs : List Char} {n : Nat}
    (found : Shape.lineComment? cs = some n) :
    ∃ body after, cs = '/' :: '/' :: (body ++ after) ∧ n = 2 + body.length ∧
      (∀ c ∈ body, c ≠ '\r' ∧ c ≠ '\n') ∧ AtLineEnd after := by
  rw [Shape.lineComment?.eq_def] at found
  split at found
  · next text =>
    dsimp only at found
    -- the body is a run of what ends no line
    have comment (ends : AtLineEnd (text.drop (Shape.run (fun c => c != '\r' && c != '\n') text)))
        (count : 2 + Shape.run (fun c => c != '\r' && c != '\n') text = n) :
        ∃ body after, '/' :: '/' :: text = '/' :: '/' :: (body ++ after) ∧ n = 2 + body.length ∧
          (∀ c ∈ body, c ≠ '\r' ∧ c ≠ '\n') ∧ AtLineEnd after := by
      rw [drop_run] at ends
      refine ⟨_, _, by rw [List.takeWhile_append_dropWhile], count.symm, fun c mem => ?_, ends⟩
      simpa using List.mem_takeWhile_imp mem
    split at found
    · next tail behind =>
      exact comment (.inr ⟨tail, .inr behind⟩) (Option.some.inj found)
    · cases found
    · next noPair noReturn =>
      refine comment ?_ (Option.some.inj found)
      cases behind : text.drop (Shape.run (fun c => c != '\r' && c != '\n') text) with
      | nil => exact .inl rfl
      | cons c rest =>
        have stops := not_of_drop_run behind
        by_cases newline : c = '\n'
        · exact .inr ⟨rest, .inl (by rw [newline])⟩
        · have cr : c = '\r' := by simpa [newline] using stops
          exact absurd (by rw [behind, cr]) (noReturn rest)
  · cases found

/-! Tokens end on the line that they begin on. -/

/-- The piece is a token of the text, not its end, and has no newline in it. -/
def InLine (text : List Char) (p : Piece) : Prop :=
  ∃ kind more fault, p = .token kind more fault ∧ kind ≠ .eof ∧ '\n' ∉ text.take (more + 1)

theorem notMem_take_add {a : Char} {cs : List Char} {m n : Nat} (front : a ∉ cs.take m)
    (behind : a ∉ (cs.drop m).take n) : a ∉ cs.take (m + n) := by
  rw [List.take_add, List.mem_append]
  exact not_or.mpr ⟨front, behind⟩

theorem eq_of_some? {n m : Nat} (found : Shape.some? n = some m) : m = n := by
  rw [Shape.some?] at found
  split at found
  · cases found
  · exact (Option.some.inj found).symm

section

variable {cs : List Char} {n : Nat}

theorem inLine_digits? (found : Shape.digits? cs = some n) : '\n' ∉ cs.take n := by
  rw [eq_of_some? found]
  exact notMem_take_run (by decide) cs

theorem inLine_mantissa? (found : Shape.mantissa? cs = some n) : '\n' ∉ cs.take n := by
  rw [Shape.mantissa?] at found
  dsimp only at found
  split at found
  · next rest behind =>
    split at found
    · cases found
    · cases found
      rw [Nat.add_assoc]
      refine notMem_take_add (notMem_take_run (by decide) cs) ?_
      rw [behind, Nat.add_comm, List.take_succ_cons, List.mem_cons, not_or]
      exact ⟨by decide, notMem_take_run (by decide) rest⟩
  · cases found

theorem inLine_exponent? (found : Shape.exponent? cs = some n) : '\n' ∉ cs.take n := by
  rw [Shape.exponent?.eq_def] at found
  split at found
  · next e rest =>
    split at found
    · next mark =>
      obtain ⟨count, digits, rfl⟩ := Option.map_eq_some_iff.mp found
      have noNewline : '\n' ≠ e := by
        rintro rfl
        exact absurd mark (by decide)
      rw [Nat.add_assoc, Nat.add_comm, List.take_succ_cons, List.mem_cons, not_or]
      refine ⟨noNewline, notMem_take_add ?_ (inLine_digits? digits)⟩
      split <;> simp
    · cases found
  · cases found

theorem inLine_hex? (found : Shape.hex? cs = some n) : '\n' ∉ cs.take n := by
  rw [Shape.hex?.eq_def] at found
  split at found
  · next x rest =>
    split at found
    · next mark =>
      obtain ⟨count, digits, rfl⟩ := Option.map_eq_some_iff.mp found
      have noNewline : '\n' ≠ x := by
        rintro rfl
        exact absurd mark (by decide)
      rw [eq_of_some? digits]
      exact notMem_take_add (by simp [noNewline]) (notMem_take_run (by decide) rest)
    · cases found
  · cases found

theorem of_orElse {α : Type} {a b : Option α} {x : α} (found : (a <|> b) = some x) :
    a = some x ∨ b = some x := by
  cases a with
  | none => exact .inr found
  | some y => exact .inl found

theorem inLine_fixed? (found : Shape.fixed? cs = some n) : '\n' ∉ cs.take n := by
  obtain ⟨count, number, found⟩ := Option.bind_eq_some_iff.mp found
  have front : '\n' ∉ cs.take count := (of_orElse number).elim inLine_mantissa? inLine_digits?
  split at found
  · next d rest behind =>
    split at found
    · next mark =>
      cases found
      have noNewline : '\n' ≠ d := by
        rintro rfl
        exact absurd mark (by decide)
      exact notMem_take_add front (by simp [behind, noNewline])
    · cases found
  · cases found

theorem inLine_float? (found : Shape.float? cs = some n) : '\n' ∉ cs.take n := by
  rw [Shape.float?] at found
  split at found
  · next count mantissa =>
    cases found
    refine notMem_take_add (inLine_mantissa? mantissa) ?_
    cases exponent : Shape.exponent? (cs.drop count) with
    | none => simp
    | some more => exact inLine_exponent? exponent
  · obtain ⟨count, digits, found⟩ := Option.bind_eq_some_iff.mp found
    obtain ⟨more, exponent, rfl⟩ := Option.map_eq_some_iff.mp found
    exact notMem_take_add (inLine_digits? digits) (inLine_exponent? exponent)

theorem inLine_octal? (found : Shape.octal? cs = some n) : '\n' ∉ cs.take n := by
  rw [Shape.octal?.eq_def] at found
  split at found
  · obtain ⟨count, digits, rfl⟩ := Option.map_eq_some_iff.mp found
    exact notMem_take_add (by simp) (inLine_digits? digits)
  · cases found

theorem inLine_number? {kind : LiteralKind} (found : Shape.number? cs = some (kind, n)) :
    '\n' ∉ cs.take n := by
  have counted {shape : Option Nat} {k : LiteralKind}
      (found : shape.map (k, ·) = some (kind, n)) : shape = some n := by
    obtain ⟨count, eq, pair⟩ := Option.map_eq_some_iff.mp found
    cases pair
    exact eq
  rcases of_orElse found with hex | found
  · exact inLine_hex? (counted hex)
  rcases of_orElse found with fixed | found
  · exact inLine_fixed? (counted fixed)
  rcases of_orElse found with float | found
  · exact inLine_float? (counted float)
  rcases of_orElse found with octal | decimal
  · exact inLine_octal? (counted octal)
  · exact inLine_digits? (counted decimal)

theorem inLine_closing? {quote : Char} (found : Shape.closing? quote cs = some n) :
    '\n' ∉ cs.take n := by
  fun_induction Shape.closing? quote cs generalizing n with
  | case1 => cases found
  | case2 => cases found
  | case3 rest other =>
    cases found
    simpa using Ne.symm other
  | case4 => cases found
  | case5 => cases found
  | case6 d rest other _ _ ih =>
    obtain ⟨count, inside, rfl⟩ := Option.map_eq_some_iff.mp found
    exact notMem_take_add (by simpa using Ne.symm other) (ih inside)
  | case7 d rest other _ _ ih =>
    obtain ⟨count, inside, rfl⟩ := Option.map_eq_some_iff.mp found
    exact notMem_take_add (by simpa using Ne.symm other) (ih inside)

end

/-- A token of `count` characters, of which there may be none but the first. -/
theorem inLine_of_count {c : Char} {cs : List Char} {count : Nat} (first : c ≠ '\n')
    (inLine : '\n' ∉ (c :: cs).take count) {kind : TokenKind} (inner : kind ≠ .eof)
    (fault : Option LexFault) : InLine (c :: cs) (.token kind (count - 1) fault) := by
  refine ⟨kind, count - 1, fault, rfl, inner, ?_⟩
  cases count with
  | zero => simpa using first.symm
  | succ n => exact inLine

theorem inLine_literal {c : Char} {cs : List Char} {count : Nat} (first : c ≠ '\n')
    (inLine : '\n' ∉ (c :: cs).take count) (kind : LiteralKind) (noun : String) :
    InLine (c :: cs) (literal kind noun count (c :: cs)) := by
  rw [literal]
  split <;> exact inLine_of_count first inLine (by simp) _

theorem inLine_quoted {c : Char} {cs : List Char} (first : c ≠ '\n') (wide : Bool) (quote : Char)
    (mark : '\n' ∉ (c :: cs).take (if wide then 2 else 1)) :
    InLine (c :: cs) (quoted wide quote (c :: cs)) := by
  rw [quoted]
  split
  · exact inLine_of_count first (newline_notMem_restOfLine _) (by simp) _
  · next count closed =>
    have body := notMem_take_add mark (inLine_closing? closed)
    split <;> exact inLine_literal first body _ _

theorem inLine_number {c : Char} {cs : List Char} {kind : LiteralKind} {count : Nat}
    (first : c ≠ '\n') (shape : Shape.number? (c :: cs) = some (kind, count)) :
    InLine (c :: cs) (number kind count (c :: cs)) := by
  rw [number]
  dsimp only
  split
  · exact inLine_literal first (inLine_number? shape) _ _
  · exact inLine_of_count first
      (notMem_take_add (inLine_number? shape) (notMem_take_run (by decide) _)) (by simp) _

theorem inLine_ident? {c : Char} {cs : List Char} {count : Nat} (first : c ≠ '\n')
    (shape : Shape.ident? (c :: cs) = some count) : '\n' ∉ (c :: cs).take count := by
  rw [Shape.ident?] at shape
  split at shape
  · cases shape
    exact notMem_take_add (by simpa using first.symm) (notMem_take_run (by decide) cs)
  · cases shape

theorem inLine_punct? {c : Char} {cs : List Char} {mark : Punct} {count : Nat} (first : c ≠ '\n')
    (shape : Shape.punct? (c :: cs) = some (mark, count)) : '\n' ∉ (c :: cs).take count := by
  rw [Shape.punct?.eq_def] at shape
  split at shape
  · next eq =>
    cases shape
    simp [eq]
  · next d ds other eq =>
    obtain ⟨p, -, pair⟩ := Option.map_eq_some_iff.mp shape
    cases pair
    simpa using first.symm
  · cases shape

/-- What no gap begins is a token, and it ends on its line. -/
theorem inLine_token {c : Char} (first : c ≠ '\n') (cs : List Char) :
    InLine (c :: cs) (token c cs) := by
  rw [token]
  dsimp only
  have second (quote : Char) (plain : quote ≠ '\n')
      (wide : (c = 'L' && cs.head? = some quote) = true) : '\n' ∉ (c :: cs).take 2 := by
    rw [Bool.and_eq_true, decide_eq_true_eq, decide_eq_true_eq] at wide
    obtain ⟨rfl, next⟩ := wide
    obtain ⟨rest, rfl⟩ := List.head?_eq_some_iff.mp next
    simpa using plain.symm
  split
  · next wide => exact inLine_quoted first true '\'' (second '\'' (by decide) wide)
  split
  · exact inLine_quoted first false '\'' (by simpa using first.symm)
  split
  · next wide => exact inLine_quoted first true '"' (second '"' (by decide) wide)
  split
  · exact inLine_quoted first false '"' (by simpa using first.symm)
  split
  · next count shape =>
    exact inLine_of_count first (inLine_ident? first shape) (by split <;> simp) _
  split
  · next shape => exact inLine_number first shape
  split
  · next shape => exact inLine_of_count first (inLine_punct? first shape) (by simp) _
  · have one : '\n' ∉ (c :: cs).take 1 := by simpa using first.symm
    exact inLine_of_count first one (by simp) _

theorem ne_newline_of_notBlank {c : Char} (notBlank : ¬Text.isBlank c = true) : c ≠ '\n' := by
  rintro rfl
  exact notBlank (by decide)

/-- What is skipped: a blank, a directive on a fresh line, or a comment. -/
theorem cases_of_gap {fresh : Bool} {c : Char} {cs : List Char} {more : Nat}
    (found : piece fresh c cs = .gap more) :
    (Text.isBlank c = true ∧ more = 0) ∨
    (c = '#' ∧ fresh = true ∧ more = Shape.directive ('#' :: cs) - 1) ∨
    (∃ body after, c = '/' ∧ cs = '/' :: (body ++ after) ∧ more = 1 + body.length ∧
      (∀ d ∈ body, d ≠ '\r' ∧ d ≠ '\n') ∧ AtLineEnd after) ∨
    (∃ tail count, c = '/' ∧ cs = '*' :: tail ∧ more = 1 + count ∧
      Shape.commentEnd? tail = some count) := by
  rw [piece] at found
  split at found
  · next blank =>
    cases found
    exact .inl ⟨blank, rfl⟩
  next notBlank =>
  split at found
  · next start =>
    rw [Bool.and_eq_true, decide_eq_true_eq] at start
    obtain ⟨rfl, fresh⟩ := start
    cases found
    exact .inr (.inl ⟨rfl, fresh, rfl⟩)
  split at found
  · next count comment =>
    cases found
    obtain ⟨body, after, whole, rfl, inLine, ends⟩ := exists_of_lineComment? comment
    obtain ⟨rfl, rfl⟩ := List.cons.inj whole
    exact .inr (.inr (.inl ⟨body, after, rfl, rfl, by omega, inLine, ends⟩))
  split at found
  · next mark =>
    rw [Bool.and_eq_true, decide_eq_true_eq, decide_eq_true_eq] at mark
    obtain ⟨rfl, star⟩ := mark
    obtain ⟨tail, rfl⟩ := List.head?_eq_some_iff.mp star
    split at found
    · next count ended =>
      cases found
      exact .inr (.inr (.inr ⟨tail, count, rfl, rfl, rfl, ended⟩))
    · cases found
  · obtain ⟨kind, count, fault, eq, -⟩ := inLine_token (ne_newline_of_notBlank notBlank) cs
    rw [eq] at found
    cases found

theorem separator_of_gap {fresh : Bool} {c : Char} {cs : List Char} {more : Nat}
    (found : piece fresh c cs = .gap more) :
    Separator fresh (cs.drop more) (c :: cs.take more) := by
  rcases cases_of_gap found with ⟨blank, rfl⟩ | ⟨rfl, start, rfl⟩ |
    ⟨body, after, rfl, rfl, rfl, inLine, ends⟩ | ⟨tail, count, rfl, rfl, rfl, ended⟩
  · exact .blank blank
  · have lines := directiveLines ('#' :: cs)
    rw [take_cons_pred (directive_pos cs), drop_cons_pred (directive_pos cs)] at lines
    exact .directive start lines
  · rw [Nat.add_comm, List.take_succ_cons, List.drop_succ_cons, List.take_left, List.drop_left]
    exact .lineComment inLine ends
  · obtain ⟨body, eq, unended⟩ := commentEnd?_eq_some ended
    rw [Nat.add_comm, List.take_succ_cons, List.drop_succ_cons, eq]
    exact .blockComment unended

/-- What is read as a token is not the end of the text, and has no newline in it. -/
theorem inLine_of_piece {fresh : Bool} {c : Char} {cs : List Char} {kind : TokenKind} {more : Nat}
    {fault : Option LexFault} (found : piece fresh c cs = .token kind more fault) :
    kind ≠ .eof ∧ '\n' ∉ c :: cs.take more := by
  have notBlank : ¬Text.isBlank c = true := by
    intro blank
    rw [piece, if_pos blank] at found
    cases found
  obtain ⟨kind', more', fault', eq, inner, inLine⟩ :=
    inLine_token (ne_newline_of_notBlank notBlank) cs
  rw [token_of_piece found] at eq
  cases eq
  exact ⟨inner, inLine⟩

/-- A comment that is not closed begins with its mark, and has no other mark that would close it. -/
theorem unended_of_unclosed {fresh : Bool} {c : Char} {cs : List Char}
    (found : piece fresh c cs = .unclosed) :
    ∃ body, c :: cs = '/' :: '*' :: body ∧ Unended body := by
  rw [piece] at found
  split at found
  · cases found
  next notBlank =>
  split at found
  · cases found
  split at found
  · cases found
  split at found
  · next mark =>
    rw [Bool.and_eq_true, decide_eq_true_eq, decide_eq_true_eq] at mark
    obtain ⟨rfl, star⟩ := mark
    obtain ⟨tail, rfl⟩ := List.head?_eq_some_iff.mp star
    split at found
    · cases found
    · next missing => exact ⟨tail, rfl, unended_of_commentEnd? missing⟩
  · obtain ⟨kind, count, fault, eq, -⟩ := inLine_token (ne_newline_of_notBlank notBlank) cs
    rw [eq] at found
    cases found

end Lexer

end Idl
