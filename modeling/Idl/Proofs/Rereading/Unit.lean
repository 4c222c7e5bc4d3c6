import Idl.Parse
import Idl.Proofs.Progress.Unit
import Idl.Proofs.Rereading.Definition

/-!
A unit is read back from its printed text, up to places, if the text is legible and the limit leaves
room for the parentheses in it. Main statements: `Specification.Formed.reparsed` and
`parseText_text`.
-/

set_option autoImplicit false

namespace Idl

namespace Grammar

variable {r : List Chunk} {n : Nat}

theorem rereads_importDecl {i : Import} :
    Rereads importDecl (i.chunks ++ r) r fun i' => i'.bare = i.bare := by
  refine .skipBehind ['\n'] ?_
  obtain ⟨target, span⟩ := i
  have ended {start : Span} {target' : ImportTarget} (same : target'.bare = target.bare) :
      Rereads (do discard (expect .semi); return (⟨target', ← spanFrom start⟩ : Import))
        (.mark .semi :: .newline :: r) (.newline :: r)
        fun i' => i'.bare = (⟨target, span⟩ : Import).bare :=
    rereads_mark <| rereads_spanFrom fun span => .pure (by simp only [Import.bare, same])
  simp only [Import.chunks, List.cons_append, List.nil_append]
  refine rereads_expectKeyword.bind fun start _ => .skip ?_
  cases target with
  | scope name =>
    refine rereads_test (b := false) (fun s spelled => ?_) ?_
    · rw [s.kind_of_spelled spelled]
      obtain kind | kind := front_name name _ <;> rw [kind] <;> decide
    · exact (Rereads.map (R := fun t => t.bare = (ImportTarget.scope name).bare)
        ((rereads_scopedName (by simp)).imp fun m same => by
          simp only [ImportTarget.bare, same])).bind fun target same => ended same
  | file path =>
    refine rereads_test (b := true) (fun s spelled => ?_) ?_
    · rw [s.kind_of_spelled spelled]
      rfl
    · exact (Rereads.map (R := fun t => t.bare = (ImportTarget.file path).bare)
        ((rereads_stringLiteral (by simp)).imp fun text same => by rw [same])).bind
          fun target same => ended same

theorem imports_of_spelled {is : List Import} (last : front r ≠ .keyword .importKw) {s : Cursor}
    (spelled : Spelled (is.flatMap Import.chunks ++ r) s.rest) :
    (imports s).1.map Import.bare = is.map Import.bare ∧ Spelled r (imports s).2.rest ∧
      (imports s).2.errors = s.errors := by
  induction is generalizing s with
  | nil =>
    have other : ¬ s.atKeyword .importKw = true := by
      rw [s.atKeyword_of_spelled spelled]
      simpa using last
    rw [imports, if_neg other]
    exact ⟨rfl, spelled, rfl⟩
  | cons i is ih =>
    rw [List.flatMap_cons, List.append_assoc] at spelled
    have next : s.atKeyword .importKw = true := by
      rw [s.atKeyword_of_spelled spelled]
      rfl
    obtain ⟨j, t, read, spelled', errors, same⟩ := rereads_importDecl s spelled
    obtain ⟨more, spelled'', errors'⟩ := ih spelled'
    have some : kinds i.chunks ≠ [] := by simp [Import.chunks, Chunk.kinds]
    rw [imports, if_pos next, read]
    simp only [if_pos (shorter_of_spelled some spelled spelled')]
    exact ⟨by simp [same, more], spelled'', errors'.trans errors⟩

theorem definitions_of_spelled {limit : Nat} {ds : List Definition} (formed : ∀ d ∈ ds, d.Formed)
    (enough : (definitionOutlines ds).cost ≤ limit) {s : Cursor}
    (spelled : Spelled (definitionChunks 0 ds) s.rest) :
    (itemList (·.atEnd) (definitionAt limit limit) s).1.map Definition.bare =
        ds.map Definition.bare ∧
      (itemList (·.atEnd) (definitionAt limit limit) s).2.errors = s.errors := by
  have enough := cost_definitionOutlines_le.mp enough
  have items : ∀ d ∈ ds, Item (·.atEnd) (definitionAt limit limit) (Definition.chunks 0)
      Definition.bare (fun _ => True) d := fun d mem =>
    ⟨kinds_definition d, fun _ _ => trivial, fun r _ s spelled => by
      rw [Cursor.atEnd, List.isEmpty_eq_false_iff, ← List.length_pos_iff, length_of_spelled spelled,
        kinds_append, List.length_append]
      exact Nat.lt_of_lt_of_le (List.length_pos_iff.mpr (kinds_definition d)) (Nat.le_add_right ..),
      fun r _ => rereads_at.definition d 0 r (formed d mem) (enough d mem)⟩
  rw [definitionChunks_eq, ← List.append_nil (ds.flatMap _)] at spelled
  obtain ⟨same, -, errors⟩ := itemList_of_spelled items trivial (fun s spelled => by
    rw [Cursor.atEnd, List.isEmpty_iff]
    exact spelled) spelled
  exact ⟨same, errors⟩

theorem front_definitions (ds : List Definition) :
    front (definitionChunks n ds) ≠ .keyword .importKw := by
  cases ds with
  | nil => simp [definitionChunks]
  | cons d ds =>
    obtain ⟨as, kind, span⟩ := d
    rw [definitionChunks, Definition.chunks, List.append_assoc, List.cons_append,
      List.append_assoc]
    refine front_lineUses_ne (by simp) ?_
    rw [front_indent]
    obtain ⟨w, mem, word⟩ | ⟨d, rfl⟩ := front_kind (n := n) kind
    · rw [word]
      rintro ⟨⟩
      exact absurd mem (by decide)
    · simp [kindChunks]

end Grammar

open Grammar in
/-- A formed unit is read back from its text. -/
theorem Specification.Formed.reparsed {spec : Specification} (formed : spec.Formed)
    (legible : Legible spec.chunks) {limit : Nat} (enough : spec.outline.cost ≤ limit) :
    (parseText limit spec.text).diagnostics = [] ∧
      (parseText limit spec.text).specification.bare = spec.bare := by
  obtain ⟨ts, scanned, spelled⟩ := scans_chunks (p := .start) formed.standing legible
  rw [← spec.toList_text] at scanned
  have lexed : tokenize spec.text = ⟨ts ++ [endToken spec.text.toList], []⟩ :=
    tokenize_of_scanned scanned
  let s := Cursor.ofTokens (ts ++ [endToken spec.text.toList])
  have rest : s.rest = ts := by
    have readable : ts.filter (·.isReadable) = ts := List.filter_eq_self.mpr scanned.readable
    have unreadable : (endToken spec.text.toList).isReadable = false := rfl
    simp only [s, Cursor.ofTokens, List.filter_append, readable,
      List.filter_cons_of_neg (Bool.not_eq_true _ ▸ unreadable), List.filter_nil, List.append_nil]
  rw [← rest] at spelled
  obtain ⟨same, behind, errors⟩ := imports_of_spelled (front_definitions spec.definitions) spelled
  obtain ⟨same', errors'⟩ := definitions_of_spelled formed.definitions enough behind
  have none : (parseTokens limit (ts ++ [endToken spec.text.toList])).errors = [] :=
    errors'.trans errors
  rw [parseText]
  simp only [lexed, none]
  refine ⟨List.mergeSort_nil, ?_⟩
  rw [Specification.bare, Specification.bare, ← same, ← same']
  rfl

/-- What was parsed from a text is read back from its printed text, if that is legible and the limit
leaves room for it. Three times the first limit is always room enough. -/
theorem parseText_text (limit : Nat) (text : String)
    (legible : Legible (parseText limit text).specification.chunks) :
    (parseText limit text).specification.outline.cost ≤ 3 * limit ∧
      ∀ limit', (parseText limit text).specification.outline.cost ≤ limit' →
        (parseText limit' (parseText limit text).specification.text).diagnostics = [] ∧
        (parseText limit' (parseText limit text).specification.text).specification.bare =
          (parseText limit text).specification.bare := by
  have formed : (parseText limit text).specification.Formed :=
    (Grammar.found_parseTokens limit (tokenize text).tokens (fine_tokenize text)).good
  refine ⟨Outline.Within.cost_le ?_, fun limit' enough => formed.reparsed legible enough⟩
  exact within_definitionOutlines.mpr (Grammar.read_parseTokens limit (tokenize text).tokens).2.1

theorem parseText_text_annotated_struct :
    let spec := (parseText 4
      "@unit(\"m\") struct S { long a; }; const long X = -(2 + 3);").specification
    Legible spec.chunks ∧ spec.outline.cost ≤ 4 ∧ (parseText 4 spec.text).diagnostics = [] ∧
      (parseText 4 spec.text).specification.bare = spec.bare := by
  have enough : (parseText 4
      "@unit(\"m\") struct S { long a; }; const long X = -(2 + 3);"
      ).specification.outline.cost ≤ 4 := by decide +kernel
  have legible : Legible (parseText 4
      "@unit(\"m\") struct S { long a; }; const long X = -(2 + 3);"
      ).specification.chunks := by
    cbv
    exact ⟨.inr (by simp), fun d _ _ found => absurd found.length_le (by simp), trivial⟩
  exact ⟨legible, enough, (parseText_text 4 _ legible).2 4 enough⟩

/-- The parentheses that the printer adds count against the limit. -/
example :
    (parseText 2 "const long X = 1 + 2;").diagnostics = [] ∧
      (parseText 2 (parseText 2 "const long X = 1 + 2;").specification.text).diagnostics ≠ [] := by
  decide +kernel

end Idl
