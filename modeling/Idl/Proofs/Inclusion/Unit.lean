import Idl.Parse
import Idl.Proofs.Inclusion.Definition
import Idl.Proofs.Token.Tiling

/-!
The spans of a parsed text are nested: at every depth a span contains what is stored inside, and
what stands in one row is disjoint and in order. An attribute is the only construct that does not
contain its annotations; they stand in front of it. Main statement: `nested_parseText`.
-/

set_option autoImplicit false

namespace Idl

namespace Grammar

theorem adds_importDecl : Adds importDecl fun i => [i.tree] := by
  refine adds_ofKeyword fun _ => .test fun _ => .branch ?_ ?_
  · exact (adds_stringLiteral.map (h := ImportTarget.row) fun _ => rfl).bind fun _ =>
      (adds_expect _).discard.pass fun _ => .spanned fun _ => rfl
  · exact (adds_scopedName.map (h := ImportTarget.row) fun _ => rfl).bind fun _ =>
      (adds_expect _).discard.pass fun _ => .spanned fun _ => rfl

/-- Imports that fail leave no trace. -/
theorem stretch_imports {start : Span} {i : Bool} (s : Cursor) :
    ∀ pre, Stretch start i pre s → (imports s).2.places <:+ s.places ∧
      Stretch start i (pre ++ (imports s).1.map Import.tree) (imports s).2 := by
  fun_induction imports s with
  | case1 s next d t read shorter more u rest ih =>
    intro pre stretch
    have extended := adds_importDecl s stretch
    rw [read] at extended
    cases extended with
    | ok shown suffix stretch =>
      subst shown
      rw [rest] at ih
      obtain ⟨further, stretch⟩ := ih _ (stretch.weaken i)
      exact ⟨further.trans suffix, by rwa [List.append_assoc] at stretch⟩
  | case2 s next d t read longer =>
    intro pre stretch
    have extended := adds_importDecl s stretch
    rw [read] at extended
    cases extended with
    | ok shown suffix stretch =>
      subst shown
      exact ⟨suffix, stretch.weaken i⟩
  | case3 s next e failed read t shorter ih =>
    intro pre stretch
    have extended := adds_importDecl s stretch
    rw [read] at extended
    cases extended with
    | error suffix =>
      -- what was added before the error is lost with it, only the place of the cursor is left
      have recovered : t.places <:+ s.places :=
        (Cursor.places_recover 0 (failed.report e)).trans suffix
      obtain ⟨further, stretch⟩ := ih _ (stretch.onward recovered)
      exact ⟨further.trans recovered, stretch⟩
  | case4 s next e failed read t longer =>
    intro pre stretch
    have extended := adds_importDecl s stretch
    rw [read] at extended
    cases extended with
    | error suffix =>
      have recovered : t.places <:+ s.places :=
        (Cursor.places_recover 0 (failed.report e)).trans suffix
      exact ⟨recovered, by rw [List.map_nil, List.append_nil]; exact stretch.onward recovered⟩
  | case5 s other =>
    exact fun pre stretch => ⟨List.suffix_rfl, by rwa [List.map_nil, List.append_nil]⟩

end Grammar

open Grammar

/-- The trees of a unit are arranged where its tokens are. -/
theorem arranged_parseTokens (limit : Nat) {size : Nat} {tokens : List Token}
    (ordered : (Cursor.ofTokens tokens).places.Pairwise Span.Before)
    (within : ∀ a ∈ (Cursor.ofTokens tokens).places, a.stop ≤ size) :
    Arranged 0 size (parseTokens limit tokens).specification.row := by
  have first : Stretch Span.empty false [] (Cursor.ofTokens tokens) :=
    ⟨ordered, fun a _ => ⟨Nat.zero_le _, Nat.zero_le _⟩, nofun, .nil⟩
  have front := stretch_imports _ _ first
  rw [parseTokens]
  generalize imports (Cursor.ofTokens tokens) = read at front ⊢
  obtain ⟨is, s⟩ := read
  obtain ⟨suffix, stretch⟩ := front
  obtain ⟨further, stretch⟩ := stretch_itemList gathers_definitionRow (·.atEnd)
    (innerAdds_at limit limit).definition s _ stretch
  have last := within _ ((further.trans suffix).subset List.mem_cons_self)
  exact stretch.arranged.widen (Nat.zero_le _) last

/-- The places of the tokens of a text are in order, and within the text. -/
theorem ordered_tokenize (text : String) :
    (Cursor.ofTokens (tokenize text).tokens).places.Pairwise Span.Before ∧
      ∀ a ∈ (Cursor.ofTokens (tokenize text).tokens).places, a.stop ≤ text.utf8ByteSize := by
  have tiling := tokenize_tiles text
  generalize (tokenize text).tokens = tokens at tiling
  -- the last token is the end of the text, of length zero
  obtain ⟨ts, e, rfl, ⟨-, offset, len⟩, -⟩ := tiling.ended
  have whole : e.span.stop = text.utf8ByteSize := by rw [Span.stop, offset, len, Nat.add_zero]
  have within (t : Token) (mem : t ∈ ts ++ [e]) : t.span.stop ≤ text.utf8ByteSize := by
    rcases List.mem_append.mp mem with mem | mem
    · have before := (List.pairwise_append.mp tiling.apart).2.2 t mem e List.mem_cons_self
      exact offset ▸ before.2
    · exact List.mem_singleton.mp mem ▸ Nat.le_of_eq whole
  have places : (Cursor.ofTokens (ts ++ [e])).places =
      Span.empty :: (((ts ++ [e]).filter (·.isReadable)).map (·.span) ++
        [⟨e.span.stop, 0, e.span.line, e.span.column + e.span.len⟩]) := by
    rw [Cursor.places, Cursor.ofTokens, List.getLast?_concat]
  rw [places]
  constructor
  · refine List.pairwise_cons.mpr ⟨fun a _ => Nat.zero_le _, List.pairwise_append.mpr
      ⟨?_, List.pairwise_singleton _ _, fun a mem b end' => ?_⟩⟩
    · exact List.pairwise_map.mpr ((tiling.apart.imp And.right).filter _)
    · obtain ⟨t, readable, rfl⟩ := List.mem_map.mp mem
      rw [List.mem_singleton.mp end']
      exact whole ▸ within t (List.mem_filter.mp readable).1
  · simp only [List.forall_mem_cons, List.forall_mem_append, List.forall_mem_map]
    exact ⟨Nat.zero_le _, fun t mem => within t (List.mem_filter.mp mem).1,
      Nat.le_of_eq whole, List.forall_mem_nil _⟩

/-- In every text, whatever the limit, imports and definitions stand in order within the text, and
so do at every depth the parts of a construct within its span. Every span contains all that is
stored inside at any depth. The annotations of an attribute are parts of the body around it, in
front of the attribute. -/
theorem nested_parseText (limit : Nat) (text : String) :
    let row := (parseText limit text).specification.row
    Arranged 0 text.utf8ByteSize row ∧
      ∀ x ∈ row, ∀ y : SpanTree, y.Inside x →
        y.Nested ∧ ∀ z : SpanTree, z.Inside y → y.span.Contains z.span := by
  intro row
  obtain ⟨ordered, within⟩ := ordered_tokenize text
  have arranged : Arranged 0 text.utf8ByteSize row := arranged_parseTokens limit ordered within
  refine ⟨arranged, fun x mem y inside => ?_⟩
  have nested := ((arranged.nested x mem).inside inside).1
  exact ⟨nested, fun z inner => (nested.inside inner).2⟩

/-- The attributes in the bodies of interfaces that stand in no module. -/
def Specification.attributes (s : Specification) : List Attribute :=
  s.definitions.flatMap fun
    | ⟨_, .interface i, _⟩ => i.body.filterMap fun
      | .attribute a => some a
      | _ => none
    | _ => []

/-- The span of an attribute starts behind its annotations, and does not contain them. -/
theorem attribute_starts_behind_key :
    (parseText defaultNesting
        "interface I { @key attribute long a; };").specification.attributes.map
      (fun a => (a.span, a.annotations.map (·.span))) = [(⟨19, 16, 1, 20⟩, [⟨14, 4, 1, 15⟩])] ∧
    ¬ Span.Contains ⟨19, 16, 1, 20⟩ ⟨14, 4, 1, 15⟩ :=
  ⟨by decide +kernel, fun contains => absurd contains.offset (by decide)⟩

end Idl
