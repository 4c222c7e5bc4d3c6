import Idl.Text.Bytes
import Idl.Text.Split
import Mathlib.Data.List.DropRight

/-!
Bytes and lines of a text. A text is cut into lines in one way only, and the newlines of a text
stand where those of its lines do. Main statements: `brokenLines_flatten` and `newlines_flatten`.
-/

set_option autoImplicit false

namespace Idl

theorem utf8ByteSize_ofList (cs : List Char) :
    (String.ofList cs).utf8ByteSize = Text.byteCount cs := by
  induction cs with
  | nil => simp
  | cons c cs ih =>
    rw [String.ofList_cons, String.utf8ByteSize_append, String.utf8ByteSize_singleton, ih,
      Text.byteCount_cons]

namespace Text

/-- The offsets of the newlines of a text that begins at `offset`. -/
def newlines (offset : Nat) : List Char → List Nat
  | [] => []
  | c :: cs =>
    if c = '\n' then offset :: newlines (offset + c.utf8Size) cs
    else newlines (offset + c.utf8Size) cs

/-- Each line but the last ends in the only newline that it has. The last one has none. -/
inductive Broken : List (List Char) → Prop
  | nil : Broken []
  | last {body : List Char} (some : body ≠ []) (inLine : '\n' ∉ body) : Broken [body]
  | cons {body : List Char} {lines : List (List Char)} (inLine : '\n' ∉ body)
      (rest : Broken lines) : Broken ((body ++ ['\n']) :: lines)

theorem broken_brokenLines (cs : List Char) : Broken (brokenLines cs) := by
  induction cs with
  | nil => exact .nil
  | cons c cs ih =>
    rw [brokenLines]
    split
    · next newline =>
      rw [newline]
      have empty : '\n' ∉ ([] : List Char) := List.not_mem_nil
      exact .cons empty ih
    · next other =>
      generalize brokenLines cs = lines at ih
      cases ih with
      | nil => exact .last (by simp) (by simpa using Ne.symm other)
      | last some inLine => exact .last (by simp) (by simp [Ne.symm other, inLine])
      | @cons body lines inLine rest =>
        have longer : '\n' ∉ c :: body := by simp [Ne.symm other, inLine]
        exact .cons longer rest

theorem brokenLines_of_notMem {body : List Char} (some : body ≠ []) (inLine : '\n' ∉ body) :
    brokenLines body = [body] := by
  induction body with
  | nil => exact absurd rfl some
  | cons c body ih =>
    obtain ⟨other, inLine⟩ := not_or.mp (List.mem_cons.not.mp inLine)
    rw [brokenLines, if_neg (Ne.symm other)]
    cases body with
    | nil => rfl
    | cons d body =>
      rw [ih (by simp) inLine]
      rfl

theorem brokenLines_append {body : List Char} (inLine : '\n' ∉ body) (cs : List Char) :
    brokenLines (body ++ ['\n'] ++ cs) = (body ++ ['\n']) :: brokenLines cs := by
  induction body with
  | nil => rfl
  | cons c body ih =>
    obtain ⟨other, inLine⟩ := not_or.mp (List.mem_cons.not.mp inLine)
    rw [List.cons_append, List.cons_append, brokenLines, if_neg (Ne.symm other), ih inLine]
    rfl

/-- Lines that are put together are found again. -/
theorem brokenLines_flatten {lines : List (List Char)} (broken : Broken lines) :
    brokenLines lines.flatten = lines := by
  induction broken with
  | nil => rfl
  | last some inLine => simpa using brokenLines_of_notMem some inLine
  | cons inLine rest ih => rw [List.flatten_cons, brokenLines_append inLine, ih]

/-! Newlines. -/

theorem newlines_of_notMem {cs : List Char} (inLine : '\n' ∉ cs) (offset : Nat) :
    newlines offset cs = [] := by
  induction cs generalizing offset with
  | nil => rfl
  | cons c cs ih =>
    obtain ⟨other, inLine⟩ := not_or.mp (List.mem_cons.not.mp inLine)
    rw [newlines, if_neg (Ne.symm other), ih inLine]

theorem newlines_append (offset : Nat) (xs ys : List Char) :
    newlines offset (xs ++ ys) = newlines offset xs ++ newlines (offset + byteCount xs) ys := by
  induction xs generalizing offset with
  | nil => rfl
  | cons c xs ih =>
    simp only [List.cons_append, newlines, ih, byteCount_cons, Nat.add_assoc]
    split <;> rfl

/-- Lines that take up the same bytes, with newlines at the same offsets, make up texts that do. -/
theorem newlines_flatten {lines lines' : List (List Char)}
    (same : List.Forall₂ (fun line line' => byteCount line' = byteCount line ∧
      ∀ offset, newlines offset line' = newlines offset line) lines lines') :
    byteCount lines'.flatten = byteCount lines.flatten ∧
      ∀ offset, newlines offset lines'.flatten = newlines offset lines.flatten := by
  induction same with
  | nil => exact ⟨rfl, fun _ => rfl⟩
  | cons first _ ih =>
    refine ⟨by simp [first.1, ih.1], fun offset => ?_⟩
    simp only [List.flatten_cons, newlines_append, first.1, first.2, ih.2]

/-! Ends of lines. -/

theorem trim_append {blanks : List Char} (cs : List Char) (blank : ∀ c ∈ blanks, isBlank c = true) :
    trim (cs ++ blanks) = trim cs := by
  have ends : ∀ c ∈ blanks.reverse, isBlank c = true :=
    fun c mem => blank c (List.mem_reverse.mp mem)
  rw [trim, trim, dropBlanks, dropBlanks, List.dropWhile_append]
  split
  · next none =>
    rw [List.isEmpty_iff.mp none, List.dropWhile_eq_nil_iff.mpr blank]
  · rw [dropEndBlanks, List.reverse_append, List.dropWhile_append_of_pos ends]
    rfl

theorem trim_eq_nil_iff (cs : List Char) : trim cs = [] ↔ ∀ c ∈ cs, isBlank c = true := by
  have rdrop (cs : List Char) : dropEndBlanks cs = cs.rdropWhile isBlank := rfl
  constructor
  · intro none
    rw [trim, rdrop, List.rdropWhile_eq_nil_iff] at none
    rw [← List.takeWhile_append_dropWhile (p := isBlank) (l := cs)]
    intro c mem
    rcases List.mem_append.mp mem with front | behind
    · exact List.mem_takeWhile_imp front
    · exact none c behind
  · intro blank
    rw [trim, dropBlanks, List.dropWhile_eq_nil_iff.mpr blank]
    rfl

/-- What a line loses with its end is blank. -/
theorem exists_bareLine (line : List Char) :
    ∃ blanks, line = bareLine line ++ blanks ∧ ∀ c ∈ blanks, isBlank c = true := by
  have feed : ∀ c ∈ ['\n'], isBlank c = true := fun c mem => by
    rw [List.mem_singleton.mp mem]
    decide
  rw [bareLine]
  split
  · next newline =>
    obtain ⟨front, rfl⟩ := List.getLast?_eq_some_iff.mp newline
    rw [List.dropLast_concat]
    dsimp only
    split
    · next return' =>
      obtain ⟨body, rfl⟩ := List.getLast?_eq_some_iff.mp return'
      rw [List.dropLast_concat]
      exact ⟨['\r', '\n'], by simp, List.forall_mem_cons.mpr ⟨by decide, feed⟩⟩
    · exact ⟨['\n'], rfl, feed⟩
  · exact ⟨[], (List.append_nil line).symm, by simp⟩

theorem trim_bareLine (line : List Char) : trim (bareLine line) = trim line := by
  obtain ⟨blanks, split, blank⟩ := exists_bareLine line
  conv_rhs => rw [split, trim_append _ blank]

end Text

end Idl
