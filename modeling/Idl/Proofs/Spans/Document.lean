import Idl.Document
import Idl.Proofs.Spans.Definition
import Idl.Proofs.Spans.Rules
import Idl.Proofs.Spans.Binding
import Idl.Proofs.Spans.Text
import Idl.Proofs.Text.Lines

/-!
The diagnostics of a document point into its text, and stand in the order of the text; those at one
offset stand in the order in which they were noticed. Main statement:
`Document.diagnostics_placed`.
-/

set_option autoImplicit false

namespace Idl

/-! Sorting. -/

namespace Diagnostics

theorem pairwise_sorted (ds : Diagnostics) :
    ds.sorted.Pairwise fun a b => a.span.offset ≤ b.span.offset := by
  have sorted : ds.sorted.Pairwise fun a b => decide (a.span.offset ≤ b.span.offset) = true :=
    List.pairwise_mergeSort (fun a b c => by simpa using Nat.le_trans)
      (fun a b => by simpa using Nat.le_total _ _) ds
  exact sorted.imp of_decide_eq_true

/-- Sorting keeps diagnostics at one offset as they are. -/
theorem filter_sorted (ds : Diagnostics) (offset : Nat) :
    ds.sorted.filter (·.span.offset = offset) = ds.filter (·.span.offset = offset) := by
  have level : (ds.filter (·.span.offset = offset)).Pairwise
      fun a b => decide (a.span.offset ≤ b.span.offset) = true := by
    refine List.pairwise_of_forall_mem_list fun a mem b mem' => ?_
    have here := (List.mem_filter.mp mem).2
    have here' := (List.mem_filter.mp mem').2
    simp only [decide_eq_true_eq] at here here' ⊢
    omega
  have kept : (ds.filter (·.span.offset = offset)).Sublist ds.sorted :=
    List.sublist_mergeSort (fun a b c => by simpa using Nat.le_trans)
      (fun a b => by simpa using Nat.le_total _ _) level List.filter_sublist
  have sub := kept.filter (·.span.offset = offset)
  rw [List.filter_filter] at sub
  simp only [Bool.and_self] at sub
  exact (sub.eq_of_length ((ds.sorted_perm.filter _).length_eq.symm)).symm

end Diagnostics

/-! Bytes. -/

/-- Where a prefix of a text ends, no character of it is cut. -/
theorem isValid_of_prefix {text : String} {front : List Char} (before : front <+: text.toList) :
    String.Pos.Raw.IsValid text ⟨Text.byteCount front⟩ := by
  obtain ⟨back, eq⟩ := before
  refine String.Pos.Raw.isValid_iff_exists_append.mpr
    ⟨String.ofList front, String.ofList back, ?_, ?_⟩
  · rw [← String.ofList_append, eq, String.ofList_toList]
  · rw [String.rawEndPos, utf8ByteSize_ofList]

/-- The span starts and stops at characters of the text, and names the line and column that it
starts at. -/
structure Span.PointsInto (a : Span) (text : String) : Prop where
  stop_le : a.stop ≤ text.utf8ByteSize
  start_valid : String.Pos.Raw.IsValid text ⟨a.offset⟩
  stop_valid : String.Pos.Raw.IsValid text ⟨a.stop⟩
  place : ∃ before, before <+: text.toList ∧ Text.byteCount before = a.offset ∧
    a.line = lineAfter before ∧ a.column = columnAfter before

theorem Span.LiesIn.pointsInto {a : Span} {text : String} (lies : a.LiesIn text.toList) :
    a.PointsInto text := by
  have inside := lies.stop_le
  obtain ⟨before, covered, after, eq, covers⟩ := lies
  have start : before <+: text.toList := ⟨covered ++ after, by rw [eq, List.append_assoc]⟩
  have stop : a.stop = Text.byteCount (before ++ covered) := by
    rw [Span.stop, covers.offset, covers.len, Text.byteCount_append]
  constructor
  case stop_le =>
    have size := utf8ByteSize_ofList text.toList
    rw [String.ofList_toList] at size
    exact size ▸ inside
  case start_valid =>
    rw [covers.offset]
    exact isValid_of_prefix start
  case stop_valid =>
    rw [stop]
    exact isValid_of_prefix ⟨after, eq.symm⟩
  case place => exact ⟨before, start, covers.offset.symm, covers.line, covers.column⟩

namespace Document

/-- The diagnostics of a text, phase by phase: characters, grammar, forward declarations, names and
constants, rules. -/
def noticed (options : ParseOptions) (text : String) : Diagnostics :=
  let lexed := tokenize text
  let parsed := parseTokens options.maxNesting lexed.tokens
  let scopes := buildScopes parsed.specification
  let bound := bindUnit parsed.specification scopes.table
  let breaches := breachesOf bound.specification bound.table
  lexed.errors.map LexError.diagnostic ++ parsed.errors.map SyntaxError.diagnostic ++
    scopes.mismatches.map ForwardMismatch.diagnostic ++
    bound.errors.map BindingError.diagnostic ++
    breaches.map (Breach.diagnostic options.strictForward)

/-- What analysis reports of a unit with good places stands at such. -/
theorem placed_analysis {P : Span → Prop} {s : Specification} (placed : allPlaced P s.definitions) :
    (∀ m ∈ (buildScopes s).mismatches, P m.name.span) ∧
    (∀ e ∈ (bindUnit s (buildScopes s).table).errors, P e.span) ∧
    ∀ b ∈ breachesOf (bindUnit s (buildScopes s).table).specification
      (bindUnit s (buildScopes s).table).table, P b.span := by
  have marked := marked_buildScopes placed
  obtain ⟨bound, errors⟩ := placed_bindUnit placed (buildScopes s).table
  exact ⟨marked.mismatches, errors, placed_breachesOf bound (settling_bindUnit s _).frame
    marked.awaits marked.redeclarations⟩

/-- The text ends where its last token stands. -/
theorem ending_tokenize (text : String) :
    (Grammar.Cursor.ofTokens (tokenize text).tokens).ending = (endToken text.toList).span := by
  rw [Grammar.Cursor.ofTokens, tokenize]
  simp only [List.getLast?_append, List.getLast?_singleton, Option.some_or]
  rfl

theorem lies_noticed (options : ParseOptions) (text : String) :
    ∀ d ∈ noticed options text, d.span.LiesIn text.toList := by
  obtain ⟨tokens, lexed⟩ := lies_tokenize text
  have ending : (Grammar.Cursor.ofTokens (tokenize text).tokens).ending.LiesIn text.toList := by
    rw [ending_tokenize]
    exact lies_endToken text.toList
  have join (a b : Span) (left : a.LiesIn text.toList) (right : b.LiesIn text.toList) :
      (a.join b).LiesIn text.toList := left.join right
  obtain ⟨tree, parsed⟩ := Grammar.placed_parseTokens join options.maxNesting tokens ending
  obtain ⟨mismatches, bound, breaches⟩ := placed_analysis tree
  intro d mem
  simp only [noticed, List.mem_append, List.mem_map] at mem
  obtain ((((⟨e, mem, rfl⟩ | ⟨e, mem, rfl⟩) | ⟨m, mem, rfl⟩) | ⟨e, mem, rfl⟩) | ⟨b, mem, rfl⟩) :=
    mem
  · exact lexed e mem
  · exact parsed e mem
  · exact mismatches m mem
  · exact bound e mem
  · exact breaches b mem

/-- The phases of reading are sorted by themselves, those of analysis too, and then all. -/
theorem exists_diagnostics_eq (options : ParseOptions) (text : String) :
    ∃ read analyzed : Diagnostics, noticed options text = read ++ analyzed ∧
      (ofText options text).diagnostics = Diagnostics.sorted (read.sorted ++ analyzed.sorted) := by
  refine ⟨(tokenize text).errors.map LexError.diagnostic ++ _, _ ++ _ ++ _, ?_, rfl⟩
  simp only [noticed, List.append_assoc]
  rfl

/-- Diagnostics point into the text. They are those that the phases noticed, sorted by offset and so
by line and column, and at one offset in the order in which they were noticed. -/
theorem diagnostics_placed (options : ParseOptions) (text : String) :
    (∀ d ∈ (ofText options text).diagnostics, d.span.PointsInto text) ∧
    ((ofText options text).diagnostics.Pairwise fun a b => a.span.offset ≤ b.span.offset) ∧
    ((ofText options text).diagnostics.Pairwise fun a b => a.span.NotAfter b.span) ∧
    (ofText options text).diagnostics.Perm (noticed options text) ∧
    ∀ offset, (ofText options text).diagnostics.filter (·.span.offset = offset) =
      (noticed options text).filter (·.span.offset = offset) := by
  obtain ⟨read, analyzed, noticed_eq, eq⟩ := exists_diagnostics_eq options text
  have perm : (ofText options text).diagnostics.Perm (noticed options text) := by
    rw [eq, noticed_eq]
    exact (Diagnostics.sorted_perm _).trans
      ((Diagnostics.sorted_perm read).append (Diagnostics.sorted_perm analyzed))
  have lies (d : Diagnostic) (mem : d ∈ (ofText options text).diagnostics) :
      d.span.LiesIn text.toList := lies_noticed options text d (perm.mem_iff.mp mem)
  have sorted : (ofText options text).diagnostics.Pairwise
      fun a b => a.span.offset ≤ b.span.offset := eq ▸ Diagnostics.pairwise_sorted _
  refine ⟨fun d mem => (lies d mem).pointsInto, sorted, ?_, perm, fun offset => ?_⟩
  · exact sorted.imp_of_mem fun mem mem' le => (lies _ mem).notAfter (lies _ mem') le
  · rw [eq, noticed_eq, Diagnostics.filter_sorted, List.filter_append, List.filter_append,
      Diagnostics.filter_sorted, Diagnostics.filter_sorted]

end Document

end Idl
