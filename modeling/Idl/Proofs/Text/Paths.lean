import Idl.Proofs.Token.Fine
import Idl.Text.Split

/-!
Paths of words. Joining words with double colons or slashes and splitting the text again gives the
words back. Main statements: `pathNames_intercalate` and `splitSlashes_intercalate`.
-/

set_option autoImplicit false

namespace Idl

/-- A word has no separator in it, and no end. -/
theorem IsWord.notMem {word : String} (shape : IsWord word) {c : Char}
    (other : Shape.continuesWord c = false) : c ∉ word.toList := by
  obtain ⟨first, rest, eq, starts, continues⟩ := shape
  have start : Shape.continuesWord first = true := by
    simp only [Shape.startsWord, Bool.or_eq_true] at starts
    rcases starts with alpha | line <;> simp_all [Shape.continuesWord]
  rw [eq, List.mem_cons]
  rintro (rfl | mem)
  · rw [start] at other
    cases other
  · rw [continues c mem] at other
    cases other

theorem IsWord.ne_empty {word : String} (shape : IsWord word) : word.toList ≠ [] := by
  obtain ⟨c, cs, eq, -⟩ := shape
  rw [eq]
  exact List.cons_ne_nil c cs

namespace Text

variable {w cs : List Char} {ws : List (List Char)}

/-! Double colons. -/

theorem splitColons_cons {c : Char} (other : c ≠ ':') (cs : List Char) :
    splitColons (c :: cs) = consFirst c (splitColons cs) := by
  rw [splitColons]
  rintro ds rfl
  exact absurd rfl other

theorem splitColons_of_notMem (plain : ':' ∉ w) : splitColons w = [w] := by
  induction w with
  | nil => rfl
  | cons c w ih =>
    obtain ⟨other, plain⟩ := not_or.mp (List.mem_cons.not.mp plain)
    rw [splitColons_cons (Ne.symm other), ih plain]
    rfl

theorem splitColons_append (plain : ':' ∉ w) (cs : List Char) :
    splitColons (w ++ ':' :: ':' :: cs) = w :: splitColons cs := by
  induction w with
  | nil => rw [List.nil_append, splitColons]
  | cons c w ih =>
    obtain ⟨other, plain⟩ := not_or.mp (List.mem_cons.not.mp plain)
    rw [List.cons_append, splitColons_cons (Ne.symm other), ih plain]
    rfl

theorem splitColons_intercalate (nonempty : ws ≠ []) (plain : ∀ w ∈ ws, ':' ∉ w) :
    splitColons ([':', ':'].intercalate ws) = ws := by
  induction ws with
  | nil => exact absurd rfl nonempty
  | cons w ws ih =>
    obtain ⟨first, plain⟩ := List.forall_mem_cons.mp plain
    cases ws with
    | nil =>
      rw [List.intercalate_singleton]
      exact splitColons_of_notMem first
    | cons v ws =>
      have rest := ih (List.cons_ne_nil v ws) plain
      rw [List.intercalate_cons_cons, List.append_assoc, List.cons_append, List.cons_append,
        List.nil_append, splitColons_append first, rest]

theorem dropColons_cons {c : Char} (other : c ≠ ':') (cs : List Char) :
    dropColons (c :: cs) = c :: cs := by
  rw [dropColons]
  rintro ds eq
  exact other (List.cons.inj eq).1

/-! Slashes. -/

theorem splitSlashes_of_notMem (plain : '/' ∉ w) : splitSlashes w = [w] := by
  induction w with
  | nil => rfl
  | cons c w ih =>
    obtain ⟨other, plain⟩ := not_or.mp (List.mem_cons.not.mp plain)
    rw [splitSlashes, if_neg (Ne.symm other), ih plain]
    rfl

theorem splitSlashes_append (plain : '/' ∉ w) (cs : List Char) :
    splitSlashes (w ++ '/' :: cs) = w :: splitSlashes cs := by
  induction w with
  | nil => rw [List.nil_append, splitSlashes, if_pos rfl]
  | cons c w ih =>
    obtain ⟨other, plain⟩ := not_or.mp (List.mem_cons.not.mp plain)
    rw [List.cons_append, splitSlashes, if_neg (Ne.symm other), ih plain]
    rfl

theorem splitSlashes_intercalate (nonempty : ws ≠ []) (plain : ∀ w ∈ ws, '/' ∉ w) :
    splitSlashes (['/'].intercalate ws) = ws := by
  induction ws with
  | nil => exact absurd rfl nonempty
  | cons w ws ih =>
    obtain ⟨first, plain⟩ := List.forall_mem_cons.mp plain
    cases ws with
    | nil =>
      rw [List.intercalate_singleton]
      exact splitSlashes_of_notMem first
    | cons v ws =>
      have rest := ih (List.cons_ne_nil v ws) plain
      rw [List.intercalate_cons_cons, List.append_assoc, List.cons_append, List.nil_append,
        splitSlashes_append first, rest]

/-! Names of words. -/

variable {names : List String}

/-- A name of words begins with no colon. -/
theorem dropColons_intercalate (words : ∀ n ∈ names, IsWord n) :
    dropColons ("::".intercalate names).toList = ("::".intercalate names).toList := by
  rw [String.toList_intercalate]
  cases names with
  | nil => rfl
  | cons n names =>
    have shape := words n List.mem_cons_self
    obtain ⟨c, cs, eq, -⟩ := id shape
    have other : c ≠ ':' := by
      rintro rfl
      exact shape.notMem (by decide) (eq ▸ List.mem_cons_self)
    have begins : ∃ ds, "::".toList.intercalate ((n :: names).map String.toList) = c :: ds := by
      rw [List.map_cons, eq]
      cases names with
      | nil => exact ⟨cs, by rw [List.map_nil, List.intercalate_singleton]⟩
      | cons m names => exact ⟨_, by rw [List.map_cons, List.intercalate_cons_cons]; rfl⟩
    obtain ⟨ds, joined⟩ := begins
    rw [joined, dropColons_cons other]

theorem pathNames_intercalate (nonempty : names ≠ []) (words : ∀ n ∈ names, IsWord n) :
    pathNames ("::".intercalate names) = names := by
  have plain : ∀ w ∈ names.map String.toList, ':' ∉ w := by
    intro w mem
    obtain ⟨n, inside, rfl⟩ := List.mem_map.mp mem
    exact (words n inside).notMem (by decide)
  rw [pathNames, dropColons_intercalate words, String.toList_intercalate]
  have split := splitColons_intercalate (List.map_eq_nil_iff.not.mpr nonempty) plain
  have separator : "::".toList = [':', ':'] := rfl
  rw [separator, split, List.map_map]
  simp

/-- The words of a name that has slashes between them. -/
theorem splitSlashes_words (nonempty : names ≠ []) (words : ∀ n ∈ names, IsWord n) :
    ((splitSlashes ("/".intercalate names).toList).filter (!·.isEmpty)).map String.ofList =
      names := by
  have plain : ∀ w ∈ names.map String.toList, '/' ∉ w := by
    intro w mem
    obtain ⟨n, inside, rfl⟩ := List.mem_map.mp mem
    exact (words n inside).notMem (by decide)
  have split := splitSlashes_intercalate (List.map_eq_nil_iff.not.mpr nonempty) plain
  have separator : "/".toList = ['/'] := rfl
  have whole : (names.map String.toList).filter (!·.isEmpty) = names.map String.toList := by
    refine List.filter_eq_self.mpr fun w mem => ?_
    obtain ⟨n, inside, rfl⟩ := List.mem_map.mp mem
    simpa using (words n inside).ne_empty
  rw [String.toList_intercalate, separator, split, whole, List.map_map]
  simp

end Text

end Idl
