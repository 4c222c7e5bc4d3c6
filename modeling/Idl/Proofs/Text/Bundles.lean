import Idl.Bundle
import Idl.Proofs.Text.Lines
import Mathlib

/-!
Bundles and the unit that is left of one when its separators and headers are blanked. Both cut the
text at the same lines. Main statement: `Bundle.sections_normalized`.
-/

set_option autoImplicit false

namespace Idl.Bundle

/-! Lines. -/

/-- A line without the characters that end it. -/
def content (line : List Char) : List Char := line.rdropWhile isLineEnd

/-- The characters that end a line. -/
def ending (line : List Char) : List Char := line.rtakeWhile isLineEnd

/-- The line with spaces for its content. -/
def blanked (line : List Char) : List Char := spaces (content line) ++ ending line

/-- The line is a header wherever it is the first one of a section. -/
def isHeader (line : List Char) : Bool := headerMark.isPrefixOf (Text.trim line)

/-- The lines of a bundle with separators and headers blanked. -/
def normalLines (headerNext : Bool) : List (List Char) → List (List Char)
  | [] => []
  | line :: lines =>
    if isSeparator line then blanked line :: normalLines true lines
    else if headerNext && !isBlankLine line then
      (if isHeader line then blanked line else line) :: normalLines false lines
    else line :: normalLines headerNext lines

variable {line : List Char} {lines : List (List Char)}

theorem content_append_ending (line : List Char) : content line ++ ending line = line :=
  List.rdropWhile_append_rtakeWhile

theorem isBlank_of_ending {c : Char} (mem : c ∈ ending line) : Text.isBlank c = true := by
  have ends : isLineEnd c = true := List.mem_rtakeWhile_imp mem
  simp only [isLineEnd, Bool.or_eq_true, beq_iff_eq] at ends
  rcases ends with rfl | rfl <;> decide

theorem trim_content (line : List Char) : Text.trim (content line) = Text.trim line := by
  conv_rhs => rw [← content_append_ending line, Text.trim_append _ fun c => isBlank_of_ending]

theorem isSeparator_congr {a b : List Char} (same : Text.trim a = Text.trim b) :
    isSeparator a = isSeparator b := by
  rw [isSeparator, isSeparator, same]

theorem isBlankLine_congr {a b : List Char} (same : Text.trim a = Text.trim b) :
    isBlankLine a = isBlankLine b := by
  rw [isBlankLine, isBlankLine, same]

theorem normalizeLines_eq (headerNext : Bool) (lines : List (List Char)) :
    normalizeLines headerNext lines = (normalLines headerNext lines).flatten := by
  induction lines generalizing headerNext with
  | nil => rfl
  | cons line lines ih =>
    have ends : (line.reverse.takeWhile isLineEnd).reverse = ending line := rfl
    have front : line.take (line.length - (ending line).length) = content line := by
      have split := content_append_ending line
      have length := congrArg List.length split
      rw [List.length_append] at length
      rw [← length, Nat.add_sub_cancel]
      exact (List.prefix_iff_eq_take.mp ⟨_, split⟩).symm
    have same := trim_content line
    have header : headerMark.isPrefixOf (Text.trim line) = isHeader line := rfl
    rw [normalizeLines, normalLines]
    simp only [ends, front, isSeparator_congr same, isBlankLine_congr same, same, header, ih]
    split
    · rfl
    · split
      · split
        · rfl
        · rw [content_append_ending, List.flatten_cons]
      · rw [content_append_ending, List.flatten_cons]

section

variable {headerNext : Bool}

theorem normalLines_separator (separator : isSeparator line = true) :
    normalLines headerNext (line :: lines) = blanked line :: normalLines true lines := by
  rw [normalLines, separator, if_pos rfl]

theorem normalLines_inside (other : isSeparator line = false) :
    normalLines false (line :: lines) = line :: normalLines false lines := by
  rw [normalLines, other]
  rfl

theorem normalLines_blank (other : isSeparator line = false) (blank : isBlankLine line = true) :
    normalLines true (line :: lines) = line :: normalLines true lines := by
  rw [normalLines, other, blank]
  rfl

theorem normalLines_header (other : isSeparator line = false)
    (visible : isBlankLine line = false) (header : isHeader line = true) :
    normalLines true (line :: lines) = blanked line :: normalLines false lines := by
  rw [normalLines, other, visible, header]
  rfl

end

/-- Each line is left as it is, or has spaces for its content. -/
theorem forall₂_normalLines (headerNext : Bool) (lines : List (List Char)) :
    List.Forall₂ (fun line line' => line' = line ∨ line' = blanked line) lines
      (normalLines headerNext lines) := by
  induction lines generalizing headerNext with
  | nil => exact .nil
  | cons line lines ih =>
    rw [normalLines]
    split
    · exact .cons (.inr rfl) (ih true)
    · split
      · refine .cons ?_ (ih false)
        split
        · exact .inr rfl
        · exact .inl rfl
      · exact .cons (.inl rfl) (ih headerNext)

/-! Blanked lines. -/

theorem byteCount_spaces (cs : List Char) : Text.byteCount (spaces cs) = Text.byteCount cs := by
  have each (n : Nat) : Text.byteCount (List.replicate n ' ') = n := by
    induction n with
    | zero => rfl
    | succ n ih =>
      rw [List.replicate_succ, Text.byteCount_cons, ih, Nat.add_comm]
      rfl
  exact each _

theorem newline_notMem_spaces (cs : List Char) : '\n' ∉ spaces cs := by
  intro mem
  exact absurd (List.eq_of_mem_replicate mem) (by decide)

theorem byteCount_blanked (line : List Char) :
    Text.byteCount (blanked line) = Text.byteCount line := by
  conv_rhs => rw [← content_append_ending line]
  rw [blanked, Text.byteCount_append, Text.byteCount_append, byteCount_spaces]

theorem ending_concat (body : List Char) : ending (body ++ ['\n']) = ending body ++ ['\n'] :=
  List.rtakeWhile_concat_pos _ _ _ rfl

theorem content_concat (body : List Char) : content (body ++ ['\n']) = content body :=
  List.rdropWhile_concat_pos _ _ _ rfl

theorem blanked_concat (body : List Char) : blanked (body ++ ['\n']) = blanked body ++ ['\n'] := by
  rw [blanked, blanked, content_concat, ending_concat, List.append_assoc]

theorem newline_notMem_blanked {body : List Char} (inLine : '\n' ∉ body) :
    '\n' ∉ blanked body := by
  rw [blanked, List.mem_append, not_or]
  exact ⟨newline_notMem_spaces _, fun mem => inLine ((List.rtakeWhile_suffix _ body).subset mem)⟩

theorem blanked_ne_nil (some : line ≠ []) : blanked line ≠ [] := by
  intro none
  have size := byteCount_blanked line
  rw [none] at size
  cases line with
  | nil => exact some rfl
  | cons c cs =>
    have wide := c.utf8Size_pos
    rw [Text.byteCount_cons, Text.byteCount_nil] at size
    omega

/-- A line with text in it is not blanked already. -/
theorem blanked_ne (some : Text.trim line ≠ []) : blanked line ≠ line := by
  intro same
  rw [← same] at some
  refine some ((Text.trim_eq_nil_iff _).mpr fun c mem => ?_)
  rcases List.mem_append.mp mem with space | ends
  · rw [List.eq_of_mem_replicate space]
    decide
  · exact isBlank_of_ending ends

theorem blanked_ne_of_separator (separator : isSeparator line = true) : blanked line ≠ line :=
  blanked_ne fun none => by simp [isSeparator, none] at separator

theorem blanked_ne_of_visible (visible : isBlankLine line = false) : blanked line ≠ line :=
  blanked_ne fun none => by simp [isBlankLine, none] at visible

/-- Lines that are blanked or left as they are stay lines. -/
theorem broken_of_forall₂ {lines' : List (List Char)} (broken : Text.Broken lines)
    (each : List.Forall₂ (fun line line' => line' = line ∨ line' = blanked line) lines lines') :
    Text.Broken lines' := by
  induction broken generalizing lines' with
  | nil =>
    cases each
    exact .nil
  | last some inLine =>
    obtain _ | ⟨first, none⟩ := each
    cases none
    rcases first with rfl | rfl
    · exact .last some inLine
    · exact .last (blanked_ne_nil some) (newline_notMem_blanked inLine)
  | cons inLine rest ih =>
    obtain _ | ⟨first, more⟩ := each
    rcases first with rfl | rfl
    · exact .cons inLine (ih more)
    · rw [blanked_concat]
      exact .cons (newline_notMem_blanked inLine) (ih more)

theorem newlines_of_forall₂ {lines' : List (List Char)} (broken : Text.Broken lines)
    (each : List.Forall₂ (fun line line' => line' = line ∨ line' = blanked line) lines lines') :
    List.Forall₂ (fun line line' => Text.byteCount line' = Text.byteCount line ∧
      ∀ offset, Text.newlines offset line' = Text.newlines offset line) lines lines' := by
  have blank {body : List Char} (inLine : '\n' ∉ body) (offset : Nat) :
      Text.newlines offset (blanked body) = Text.newlines offset body := by
    rw [Text.newlines_of_notMem inLine, Text.newlines_of_notMem (newline_notMem_blanked inLine)]
  induction broken generalizing lines' with
  | nil =>
    cases each
    exact .nil
  | last some inLine =>
    obtain _ | ⟨first, none⟩ := each
    cases none
    refine .cons ?_ .nil
    rcases first with rfl | rfl
    · exact ⟨rfl, fun _ => rfl⟩
    · exact ⟨byteCount_blanked _, blank inLine⟩
  | cons inLine rest ih =>
    obtain _ | ⟨first, more⟩ := each
    refine .cons ?_ (ih more)
    rcases first with rfl | rfl
    · exact ⟨rfl, fun _ => rfl⟩
    · refine ⟨byteCount_blanked _, fun offset => ?_⟩
      rw [blanked_concat, Text.newlines_append, Text.newlines_append, blank inLine,
        byteCount_blanked]

theorem brokenLines_normalized (text : String) :
    Text.brokenLines (normalized text).toList =
      normalLines true (Text.brokenLines text.toList) := by
  rw [normalized, String.toList_ofList, normalizeLines_eq]
  exact Text.brokenLines_flatten
    (broken_of_forall₂ (Text.broken_brokenLines _) (forall₂_normalLines true _))

/-! Sections. -/

/-- The sections that chunks of lines make up. -/
def sectionsOf (cs : List (List (List Char × Nat))) : Except BundleError Bundle :=
  (cs.mapM sectionOf?).map (·.filterMap id)

theorem sectionsOf_cons_iff {c : List (List Char × Nat)} {cs : List (List (List Char × Nat))}
    {b : Bundle} : sectionsOf (c :: cs) = .ok b ↔
      ∃ first rest, sectionOf? c = .ok first ∧ sectionsOf cs = .ok rest ∧
        b = first.toList ++ rest := by
  have joins (first : Option BundleSection) (rest : List (Option BundleSection)) :
      (first :: rest).filterMap id = first.toList ++ rest.filterMap id := by
    cases first <;> rfl
  rw [sectionsOf, sectionsOf, List.mapM_cons]
  cases sectionOf? c with
  | error e => exact ⟨nofun, fun ⟨_, _, read, _⟩ => nomatch read⟩
  | ok first =>
    cases cs.mapM sectionOf? with
    | error e => exact ⟨nofun, fun ⟨_, _, _, read, _⟩ => nomatch read⟩
    | ok rest =>
      constructor
      · intro found
        cases found
        exact ⟨first, _, rfl, rfl, joins first rest⟩
      · rintro ⟨_, _, read, read', rfl⟩
        cases read
        cases read'
        exact congrArg _ (joins first rest)

theorem sectionsOf_of_ofText {schema text : String} {b : Bundle}
    (found : ofText schema text = .ok b) :
    sectionsOf (chunks ((Text.bareLines text.toList).zipIdx 1)) = .ok b := by
  rw [ofText] at found
  rw [sectionsOf]
  cases read : (chunks ((Text.bareLines text.toList).zipIdx 1)).mapM sectionOf? with
  | error e =>
    rw [read] at found
    cases found
  | ok sections =>
    rw [read] at found
    simp only [bind, Except.bind] at found
    split at found
    · cases found
    · cases found
      rfl

/-- The first chunk goes up to the first separator. -/
theorem exists_chunks (lines : List (List Char × Nat)) : ∃ more,
    chunks lines = lines.takeWhile (fun line => !isSeparator line.1) :: more := by
  induction lines with
  | nil => exact ⟨[], rfl⟩
  | cons line lines ih =>
    obtain ⟨more, eq⟩ := ih
    rw [chunks, eq, List.takeWhile_cons]
    cases isSeparator line.1 with
    | true => exact ⟨_, rfl⟩
    | false => exact ⟨more, rfl⟩

/-- The lines of a bundle without their ends, numbered from `k` on. -/
def numbered (k : Nat) (lines : List (List Char)) : List (List Char × Nat) :=
  (lines.map Text.bareLine).zipIdx k

theorem numbered_cons (k : Nat) (line : List Char) (lines : List (List Char)) :
    numbered k (line :: lines) = (Text.bareLine line, k) :: numbered (k + 1) lines := by
  rw [numbered, List.map_cons, List.zipIdx_cons]
  rfl

theorem isSeparator_bareLine (line : List Char) :
    isSeparator (Text.bareLine line) = isSeparator line :=
  isSeparator_congr (Text.trim_bareLine line)

theorem isBlankLine_bareLine (line : List Char) :
    isBlankLine (Text.bareLine line) = isBlankLine line :=
  isBlankLine_congr (Text.trim_bareLine line)

/-- How many lines stand in front of the next separator. -/
def untilSeparator (lines : List (List Char)) : Nat := (lines.takeWhile (!isSeparator ·)).length

/-- The lines without their ends, joined by newlines. -/
def joined (lines : List (List Char)) : String :=
  "\n".intercalate (lines.map fun line => String.ofList (Text.bareLine line))

theorem takeWhile_numbered (k : Nat) (lines : List (List Char)) :
    (numbered k lines).takeWhile (fun line => !isSeparator line.1) =
      numbered k (lines.take (untilSeparator lines)) := by
  induction lines generalizing k with
  | nil => rfl
  | cons line lines ih =>
    rw [numbered_cons, List.takeWhile_cons, isSeparator_bareLine, untilSeparator,
      List.takeWhile_cons]
    cases isSeparator line with
    | true => rfl
    | false =>
      rw [ih]
      rfl

/-- Behind the header of a section nothing is blanked up to the next separator. -/
theorem take_normalLines (lines : List (List Char)) :
    (normalLines false lines).take (untilSeparator lines) = lines.take (untilSeparator lines) := by
  induction lines with
  | nil => rfl
  | cons line lines ih =>
    rw [normalLines, untilSeparator, List.takeWhile_cons]
    cases isSeparator line with
    | true => rfl
    | false => simpa [untilSeparator] using ih

/-- The sections of lines that are numbered from `k` on, told by what is blanked of the lines. -/
structure Splits (headerNext : Bool) (k : Nat) (lines : List (List Char)) (b : Bundle) :
    Prop where
  /-- What is blanked is a separator or the header of a section. -/
  replaced : ∀ i line line', lines[i]? = some line →
    (normalLines headerNext lines)[i]? = some line' →
      (line' ≠ line ↔ isSeparator line = true ∨ k + i ∈ b.map (·.headerLine))
  ordered : (b.map (·.headerLine)).Pairwise (· < ·)
  inside : ∀ s ∈ b, k ≤ s.headerLine ∧ s.headerLine < k + lines.length
  /-- A section is what is left behind its header, up to the next separator. -/
  body : ∀ s ∈ b, s.body = joined (((normalLines headerNext lines).drop (s.headerLine + 1 - k)).take
    (untilSeparator (lines.drop (s.headerLine + 1 - k))))

namespace Splits

variable {headerNext next : Bool} {k : Nat} {b : Bundle} {line' : List Char}

theorem notMem (splits : Splits next (k + 1) lines b) : k ∉ b.map (·.headerLine) := by
  intro mem
  obtain ⟨s, inside, eq⟩ := List.mem_map.mp mem
  have behind := (splits.inside s inside).1
  omega

/-- A section behind a line is where it was. -/
theorem body_cons (splits : Splits next (k + 1) lines b)
    (eq : normalLines headerNext (line :: lines) = line' :: normalLines next lines)
    {s : BundleSection} (mem : s ∈ b) :
    s.body = joined (((normalLines headerNext (line :: lines)).drop (s.headerLine + 1 - k)).take
      (untilSeparator ((line :: lines).drop (s.headerLine + 1 - k)))) := by
  have behind := (splits.inside s mem).1
  have index : s.headerLine + 1 - k = s.headerLine + 1 - (k + 1) + 1 := by omega
  rw [eq, index, List.drop_succ_cons, List.drop_succ_cons]
  exact splits.body s mem

/-- A line that is no header, in front of the rest. -/
theorem cons (splits : Splits next (k + 1) lines b)
    (eq : normalLines headerNext (line :: lines) = line' :: normalLines next lines)
    (blank : line' ≠ line ↔ isSeparator line = true) :
    Splits headerNext k (line :: lines) b where
  replaced i old new here here' := by
    rw [eq] at here'
    cases i with
    | zero =>
      cases here
      cases here'
      rw [blank]
      exact ⟨.inl, fun either => either.resolve_right splits.notMem⟩
    | succ i =>
      have rest := splits.replaced i old new here here'
      rwa [Nat.add_assoc, Nat.add_comm 1] at rest
  ordered := splits.ordered
  inside s mem := by
    have bounds := splits.inside s mem
    rw [List.length_cons]
    omega
  body s mem := splits.body_cons eq mem

/-- The header of a section and its body, in front of the rest. -/
theorem header (splits : Splits false (k + 1) lines b)
    (eq : normalLines true (line :: lines) = blanked line :: normalLines false lines)
    (visible : isBlankLine line = false) {s : BundleSection} (number : s.headerLine = k)
    (body : s.body = joined (lines.take (untilSeparator lines))) :
    Splits true k (line :: lines) (s :: b) where
  replaced i old new here here' := by
    rw [eq] at here'
    rw [List.map_cons, List.mem_cons, number]
    cases i with
    | zero =>
      cases here
      cases here'
      exact ⟨fun _ => .inr (.inl rfl), fun _ => blanked_ne_of_visible visible⟩
    | succ i =>
      have rest := splits.replaced i old new here here'
      have later : k + (i + 1) ≠ k := by omega
      rw [Nat.add_assoc, Nat.add_comm 1] at rest
      rw [rest, or_iff_right later]
  ordered := by
    rw [List.map_cons, List.pairwise_cons]
    refine ⟨fun n mem => ?_, splits.ordered⟩
    obtain ⟨u, inside, rfl⟩ := List.mem_map.mp mem
    have behind := (splits.inside u inside).1
    omega
  inside := by
    rw [List.forall_mem_cons]
    refine ⟨by rw [number, List.length_cons]; omega, fun u mem => ?_⟩
    have bounds := splits.inside u mem
    rw [List.length_cons]
    omega
  body := by
    rw [List.forall_mem_cons]
    refine ⟨?_, fun u mem => splits.body_cons eq mem⟩
    have index : s.headerLine + 1 - k = 1 := by omega
    rw [body, eq, index, List.drop_succ_cons, List.drop_succ_cons, List.drop_zero, List.drop_zero,
      take_normalLines]

end Splits

/-- A section begins with a header, and its body is what stands behind it. -/
theorem section_of_header {k : Nat} {found : Option BundleSection}
    (visible : isBlankLine line = false)
    (read : sectionOf? ((Text.bareLine line, k) :: numbered (k + 1) lines) = .ok found) :
    isHeader line = true ∧
      ∃ s, found = some s ∧ s.headerLine = k ∧ s.body = joined lines := by
  rw [sectionOf?, List.dropWhile_cons, isBlankLine_bareLine, visible] at read
  simp only [Bool.false_eq_true, if_false, Text.trim_bareLine] at read
  split at read
  · cases read
  · next header =>
    split at read
    · cases read
    · cases read
      refine ⟨by simpa [isHeader] using header, _, rfl, rfl, ?_⟩
      have texts : (numbered (k + 1) lines).map (·.1) = lines.map Text.bareLine :=
        List.zipIdx_map_fst _ _
      have split : (numbered (k + 1) lines).map (fun line => String.ofList line.1) =
          ((numbered (k + 1) lines).map (·.1)).map String.ofList := by rw [List.map_map]; rfl
      rw [split, texts, joined, List.map_map]
      rfl

/-- Blank lines in front of a header are left out. -/
theorem section_of_blank {k : Nat} (blank : isBlankLine line = true)
    (rest : List (List Char × Nat)) :
    sectionOf? ((Text.bareLine line, k) :: rest) = sectionOf? rest := by
  rw [sectionOf?, sectionOf?, List.dropWhile_cons, isBlankLine_bareLine, blank, if_pos rfl]

/-- What the lines of a bundle are cut into, from wherever a section may begin or has begun. -/
theorem splits_of_chunks {headerNext : Bool} {k : Nat} {b : Bundle}
    (found : sectionsOf (if headerNext then chunks (numbered k lines)
      else (chunks (numbered k lines)).tail) = .ok b) : Splits headerNext k lines b := by
  induction lines generalizing headerNext k b with
  | nil =>
    have none : b = [] := by cases headerNext <;> cases found <;> rfl
    rw [none]
    exact ⟨by simp, .nil, by simp, by simp⟩
  | cons line lines ih =>
    obtain ⟨more, first⟩ := exists_chunks (numbered (k + 1) lines)
    rw [takeWhile_numbered] at first
    rw [numbered_cons, chunks, isSeparator_bareLine] at found
    cases separator : isSeparator line with
    | true =>
      -- the chunk that ends here has been read, or is empty
      rw [separator, if_pos rfl] at found
      refine Splits.cons  (ih ?_) (normalLines_separator separator)
        (iff_of_true (blanked_ne_of_separator separator) separator)
      cases headerNext with
      | false => exact found
      | true =>
        obtain ⟨_, rest, empty, later, rfl⟩ := sectionsOf_cons_iff.mp found
        cases empty
        exact later
    | false =>
      rw [separator, if_neg Bool.false_ne_true, first] at found
      have same : line ≠ line ↔ isSeparator line = true := by simp [separator]
      cases headerNext with
      | false => exact .cons (ih (by rw [first]; exact found)) (normalLines_inside separator) same
      | true =>
        obtain ⟨head, rest, read, later, rfl⟩ := sectionsOf_cons_iff.mp found
        cases blank : isBlankLine line with
        | true =>
          rw [section_of_blank blank] at read
          refine .cons (ih ?_) (normalLines_blank separator blank) same
          rw [first]
          exact sectionsOf_cons_iff.mpr ⟨head, rest, read, later, rfl⟩
        | false =>
          obtain ⟨header, s, rfl, number, body⟩ := section_of_header blank read
          exact .header (ih (by rw [first]; exact later))
            (normalLines_header separator blank header) blank number body

/-- Blanking keeps the bytes of a text and its newlines where they are, and leaves each line as it
is or spaces for its content. What is blanked of a bundle are its separators and the headers of its
sections, and a section is what is left behind its header, up to the next separator. -/
theorem sections_normalized (text : String) :
    let lines := Text.brokenLines text.toList
    let normal := Text.brokenLines (normalized text).toList
    (normalized text).utf8ByteSize = text.utf8ByteSize ∧
      Text.newlines 0 (normalized text).toList = Text.newlines 0 text.toList ∧
      List.Forall₂ (fun line line' => line' = line ∨ line' = blanked line) lines normal ∧
      ∀ schema b, ofText schema text = .ok b →
        (∀ i line line', lines[i]? = some line → normal[i]? = some line' →
          (line' ≠ line ↔ isSeparator line = true ∨ i + 1 ∈ b.map (·.headerLine))) ∧
        (b.map (·.headerLine)).Pairwise (· < ·) ∧
        ∀ s ∈ b, (0 < s.headerLine ∧ s.headerLine ≤ lines.length) ∧
          s.body = joined ((normal.drop s.headerLine).take
            (untilSeparator (lines.drop s.headerLine))) := by
  intro lines normal
  have broken : Text.Broken lines := Text.broken_brokenLines _
  have each := forall₂_normalLines true lines
  have eq : normal = normalLines true lines := brokenLines_normalized text
  obtain ⟨size, offsets⟩ := Text.newlines_flatten (newlines_of_forall₂ broken each)
  rw [← eq, Text.flatten_brokenLines, Text.flatten_brokenLines] at size offsets
  rw [← eq] at each
  refine ⟨?_, offsets 0, each, fun schema b found => ?_⟩
  · rw [← utf8ByteSize_ofList, ← utf8ByteSize_ofList, String.ofList_toList,
      String.ofList_toList] at size
    exact size
  · have splits : Splits true 1 lines b := splits_of_chunks (sectionsOf_of_ofText found)
    refine ⟨fun i line line' here here' => ?_, splits.ordered, fun s mem => ⟨?_, ?_⟩⟩
    · rw [eq] at here'
      rw [splits.replaced i line line' here here', Nat.add_comm]
    · have bounds := splits.inside s mem
      omega
    · rw [eq]
      exact splits.body s mem

/-- Two sections, a blank line in front of the first header, carriage returns, characters of more
than one byte and no newline at the end. -/
def twoSections : String := "====\r\n\r\n IDL: a/é\r\r\nmodule M;\n\t== \nIDL:b\n\nx\r"

theorem sections_normalized_two :
    let b : Bundle := [⟨["a", "é"], 3, "module M;"⟩, ⟨["b"], 6, "\nx\r"⟩]
    ofText "a" twoSections = .ok b ∧
      Text.newlines 0 (normalized twoSections).toList = [5, 7, 20, 30, 35, 41, 42] ∧
      (normalized twoSections).utf8ByteSize = twoSections.utf8ByteSize ∧
      (b.map (·.headerLine)).Pairwise (· < ·) := by
  intro b
  have found : ofText "a" twoSections = .ok b := by cbv
  obtain ⟨size, offsets, -, sections⟩ := sections_normalized twoSections
  exact ⟨found, by rw [offsets]; cbv, size, (sections "a" b found).2.1⟩

end Idl.Bundle
