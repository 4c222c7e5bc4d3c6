import Idl.Proofs.Lockstep.Unit
import Idl.Proofs.Progress.Type

/-!
Exports, definitions and imports take tokens, and they nest no deeper than they may. Main
statements: `innerSpends_at` and `paid_imports`.
-/

set_option autoImplicit false

namespace Idl.Grammar

variable {i : Bool} {s : Cursor}

/-! Exports. -/

theorem spends_direction : Spends i true direction fun _ => True := by
  intro s
  refine .kind ?_
  split
  · next next => exact (SpendsAt.bump (by rw [next]; decide)).discard.bind fun _ _ => .pure trivial
  · next next => exact (SpendsAt.bump (by rw [next]; decide)).discard.bind fun _ _ => .pure trivial
  · next next => exact (SpendsAt.bump (by rw [next]; decide)).discard.bind fun _ _ => .pure trivial
  · exact .expected _

theorem spends_scopedNames : Spends i true scopedNames fun _ => True :=
  (spends_commaList fun _ => spends_scopedName).free

theorem spends_raises (word : Keyword) : Spends i i (raises word) fun _ => True :=
  (spends_eatKeyword _).seek fun _ _ => .branch
    ((spends_expect _).discard.bind fun _ _ => spends_scopedNames.bind fun _ _ =>
      (spends_expect _).discard.bind fun _ _ => .pure trivial).keep
    (.pure trivial)

theorem spends_context : Spends i i context fun _ => True :=
  (spends_eatKeyword _).seek fun _ _ => .branch
    ((spends_expect _).discard.bind fun _ _ =>
      (spends_commaList fun _ => spends_stringLiteral).bind fun _ _ =>
      (spends_expect _).discard.bind fun _ _ => .pure trivial).keep
    (.pure trivial)

theorem spends_param (l : Level) : Spends i true (param l) fun p => p.outline.Within l.left :=
  (spends_annotations l).seek fun _ uses => spends_direction.bind fun _ _ =>
    (spends_typeSpec l _).bind fun _ τ => spends_ident.bind fun _ _ => .pure ⟨uses, τ⟩

theorem spends_params (l : Level) :
    Spends i true (params l) fun ps => (paramsOutline ps).Within l.left := by
  refine (spends_expect _).discard.bind fun _ _ => .test fun _ => .branch ?_ ?_
  · exact .given ((spends_expect _).discard.bind fun _ _ => .pure trivial)
  · exact (spends_commaList fun _ => spends_param l).bind fun _ ps =>
      (spends_expect _).discard.bind fun _ _ => .pure (Outline.within_map.mpr ps)

section

variable (l : Level) {uses : List AnnotationUse} (annotated : (usesOutline uses).Within l.left)
  (start : Span)

include annotated

theorem spends_attributeDecl :
    Spends i true (attributeDecl l uses) fun a => a.outline.Within l.left := by
  refine .here fun _ => (spends_eatKeyword _).seek fun readonly _ =>
    (spends_expectKeyword _).discard.bind fun _ _ => (spends_typeSpec l _).bind fun _ τ =>
    (spends_commaList fun _ => spends_ident).bind fun _ _ => (spends_raises _).bind fun _ _ =>
    .branch ?_ ?_
  · exact .given (.spanned fun _ => ⟨annotated, τ⟩)
  · exact (spends_raises _).bind fun _ _ => .spanned fun _ => ⟨annotated, τ⟩

theorem spends_operation :
    Spends i true (operation l uses start) fun o => o.outline.Within l.left := by
  have more (i oneway : Bool) (result : Option TypeSpec)
      (given : (result.elim Outline.nothing TypeSpec.outline).Within l.left) : Spends i true (do
      let name ← ident
      let ps ← params l
      let names ← raises .raises
      let texts ← context
      return (⟨uses, oneway, result, name, ps, names, texts, ← spanFrom start⟩ : Operation))
      fun o => o.outline.Within l.left :=
    spends_ident.bind fun _ _ => (spends_params l).bind fun _ ps =>
      (spends_raises _).bind fun _ _ => spends_context.bind fun _ _ =>
      .spanned fun _ => ⟨annotated, given, ps⟩
  refine (spends_eatKeyword _).seek fun _ _ => (spends_eatKeyword _).seek fun _ _ => .branch ?_ ?_
  · exact .given (more _ _ none trivial)
  · exact ((spends_typeSpec l _).map
      (R := fun r => (r.elim Outline.nothing TypeSpec.outline).Within l.left)).bind
      fun result given => more _ _ result given

theorem SpendsAt.stateMember (isPublic : Bool) (present : s.kind ≠ .eof) :
    SpendsAt i true s (stateMember l uses start isPublic) fun m =>
      m.member.outline.Within l.left :=
  (SpendsAt.bump present).discard.bind fun _ _ => (spends_typeSpec l _).bind fun _ τ =>
    (spends_declarators l).bind fun _ ds => .spanned fun _ => ⟨annotated, τ, ds⟩

omit annotated in
theorem SpendsAt.initializer (kind : InitializerKind) (present : s.kind ≠ .eof) :
    SpendsAt i true s (initializer l start kind) fun x => (paramsOutline x.params).Within l.left :=
  (SpendsAt.bump present).discard.bind fun _ _ => spends_ident.bind fun _ _ =>
    (spends_params l).bind fun _ ps => (spends_raises _).bind fun _ _ => .spanned fun _ => ps

omit annotated in
theorem SpendsAt.port {kind : Parser PortKind} {word : Keyword}
    (known : portKind? word = some kind) (present : s.kind ≠ .eof) :
    SpendsAt i true s (port start kind) fun _ => True := by
  have kinds : SpendsAt i true s kind fun _ => True := by
    unfold portKind? at known
    split at known
    · cases known
      exact (SpendsAt.bump present).discard.bind fun _ _ => .pure trivial
    · cases known
      exact (SpendsAt.bump present).discard.bind fun _ _ => (spends_eatKeyword _).bind fun _ _ =>
        .pure trivial
    · cases known
      exact (SpendsAt.bump present).discard.bind fun _ _ => .pure trivial
    · cases known
      exact (SpendsAt.bump present).discard.bind fun _ _ => .pure trivial
    · cases known
      exact (SpendsAt.bump present).discard.bind fun _ _ => .pure trivial
    · cases known
  exact kinds.bind fun _ _ => spends_scopedName.bind fun _ _ => spends_ident.bind fun _ _ =>
    .spanned fun _ => trivial

theorem spends_plainExport :
    Spends i true (plainExport l uses start) fun e => e.outline.Within (l.left + 1) := by
  intro s
  refine .kind ?_
  split
  · exact (spends_attributeDecl l annotated s).bind fun _ a => .pure a
  · exact (spends_attributeDecl l annotated s).bind fun _ a => .pure a
  · next next =>
    exact (SpendsAt.stateMember l annotated start _ (by rw [next]; nofun)).bind fun _ m => .pure m
  · next next =>
    exact (SpendsAt.stateMember l annotated start _ (by rw [next]; nofun)).bind fun _ m => .pure m
  · next next =>
    exact (SpendsAt.initializer l start _ (by rw [next]; nofun)).bind fun _ ps => .pure ps
  · next next =>
    exact (SpendsAt.initializer l start _ (by rw [next]; nofun)).bind fun _ ps => .pure ps
  · next next =>
    split
    · next known =>
      exact (SpendsAt.port start known (by rw [next]; nofun)).bind fun _ _ => .pure trivial
    · exact (spends_operation l annotated start s).bind fun _ o => .pure o
  · exact (spends_operation l annotated start s).bind fun _ o => .pure o

end

theorem spends_exportWith (l : Level) {definition : Parser (DefinitionKind Definition)}
    (kinds : ∀ i, Spends i true definition fun k => (kindOutline k).Within l.left) :
    Spends i true (exportWith l definition) fun e => e.outline.Within (l.left + 1) := by
  refine .here fun _ => (spends_annotations l).seek fun _ uses => .test fun _ => .branch ?_ ?_
  · refine (kinds _).bind fun _ kind => (spends_expect _).discard.bind fun _ _ =>
      .spanned fun _ => ?_
    rw [Export.outline, Definition.outline]
    exact ⟨uses, kind⟩
  · exact (spends_plainExport l uses _).bind fun _ e => (spends_expect _).discard.bind fun _ _ =>
      .pure e

/-! Definitions that hold no others. -/

section

variable (l : Level)

theorem spends_structDefinition :
    Spends i true (structDefinition l) fun k => (kindOutline k).Within l.left := by
  refine (spends_expectKeyword _).bind fun _ _ => spends_ident.bind fun _ _ =>
    .test fun _ => .branch (.pure ?_)
      ((spends_structBody l (spends_typeSpec l) _ _).bind fun _ fields => .pure ?_)
  · rw [kindOutline]
    trivial
  · rwa [kindOutline]

theorem spends_unionDefinition :
    Spends i true (unionDefinition l) fun k => (kindOutline k).Within l.left := by
  refine (spends_expectKeyword _).bind fun _ _ => spends_ident.bind fun _ _ =>
    .test fun _ => .branch (.pure ?_)
      ((spends_unionBody l (spends_typeSpec l) _ _).bind fun _ cases => .pure ?_)
  · rw [kindOutline]
    trivial
  · rwa [kindOutline]

theorem spends_typedefDecl : Spends i true (typedefDecl l) fun d => d.outline.Within l.left :=
  (spends_expectKeyword _).discard.bind fun _ _ => (spends_typeSpec l _).bind fun _ τ =>
    (spends_declarators l).bind fun _ ds => .pure ⟨τ, ds⟩

theorem spends_constDecl : Spends i true (constDecl l) fun d => d.outline.Within l.left :=
  (spends_expectKeyword _).discard.bind fun _ _ => (spends_typeSpec l _).bind fun _ τ =>
    spends_ident.bind fun _ _ => (spends_expect _).discard.bind fun _ _ =>
    (spends_constExpr l).bind fun _ value => .pure ⟨τ, value⟩

theorem spends_exceptionDecl :
    Spends i true (exceptionDecl l) fun d => (memberOutlines d.members).Within l.left :=
  (spends_expectKeyword _).discard.bind fun _ _ => spends_ident.bind fun _ _ =>
    (spends_expect _).discard.bind fun _ _ =>
    (spends_members l (spends_typeSpec l)).bind fun _ fields =>
    (spends_expect _).discard.bind fun _ _ => .pure fields

theorem spends_annotationMember :
    Spends i true (annotationMember l) fun m => m.outline.Within l.left := by
  refine (spends_typeSpec l _).bind fun _ τ => spends_ident.bind fun _ _ =>
    (spends_eatKeyword _).bind fun _ _ => .branch ?_ ?_
  · exact ((spends_constExpr l).map (R := fun b => (boundOutline b).Within l.left)).bind
      fun _ default => (spends_expect _).discard.bind fun _ _ => .pure ⟨τ, default⟩
  · exact .given ((spends_expect _).discard.bind fun _ _ => .pure ⟨τ, trivial⟩)

end

theorem SpendsAt.repositoryDecl (present : s.kind ≠ .eof) :
    SpendsAt i true s repositoryDecl fun _ => True :=
  (SpendsAt.bump present).discard.bind fun _ _ => spends_scopedName.bind fun _ _ =>
    spends_stringLiteral.bind fun _ _ => .pure trivial

theorem spends_namesAfter (word : Keyword) : Spends i i (namesAfter word) fun _ => True :=
  (spends_eatKeyword _).seek fun _ _ => .branch spends_scopedNames.keep (.pure trivial)

theorem spends_nameAfterColon? : Spends i i nameAfterColon? fun _ => True :=
  (spends_eat _).seek fun _ _ => .branch (spends_scopedName.keep.seek fun _ _ => .pure trivial)
    (.pure trivial)

theorem spends_valueBases : Spends i i valueBases fun _ => True :=
  (spends_eat _).seek fun _ _ => .branch
    ((spends_eatKeyword _).seek fun _ _ => spends_scopedNames.keep.seek fun _ _ => .pure trivial)
    (.pure trivial)

/-! Definitions that hold others. -/

/-- Readers of definitions and exports that nest `n` levels deep at most. -/
structure InnerSpends (n : Nat) (inner : Inner) : Prop where
  definition : ∀ i, Spends i true inner.definition fun d => d.outline.Within n
  exportItem : ∀ i, Spends i true inner.exportItem fun e => e.outline.Within n

section

variable {n : Nat} {inner : Inner} (inside : InnerSpends n inner)

include inside

theorem spends_moduleDecl :
    Spends i true (moduleDecl inner) fun d => (kindOutline (.module d)).Within n := by
  refine (spends_expectKeyword _).discard.bind fun _ _ => spends_ident.bind fun _ _ =>
    (spends_expect _).discard.bind fun _ _ =>
    (spends_bodyItems (inside.definition _)).bind fun _ all =>
    (spends_expect _).discard.bind fun _ _ => .pure ?_
  rw [kindOutline]
  exact within_definitionOutlines.mpr all

theorem spends_exportBody :
    Spends i true (exportBody inner) fun body => (exportOutlines body).Within n :=
  (spends_expect _).discard.bind fun _ _ => (spends_bodyItems (inside.exportItem _)).bind
    fun _ all => (spends_expect _).discard.bind fun _ _ => .pure (within_exportOutlines.mpr all)

theorem spends_interface (qualifier : Option Qualifier) :
    Spends i true (interface inner qualifier) fun k => (kindOutline k).Within n := by
  refine (spends_expectKeyword _).discard.bind fun _ _ => spends_ident.bind fun _ _ =>
    .test fun _ => .branch (.pure (by rw [kindOutline]; trivial)) ?_
  refine (spends_eat _).bind fun _ _ => .branch ?_ ?_
  · refine spends_scopedNames.bind fun _ _ => (spends_exportBody inside).bind fun _ body =>
      .pure ?_
    rwa [kindOutline]
  · refine .given ((spends_exportBody inside).bind fun _ body => .pure ?_)
    rwa [kindOutline]

theorem spends_valueBody (name : Ident) (qualifier : Option Qualifier) :
    Spends i true (valueBody inner name qualifier) fun v => (exportOutlines v.body).Within n :=
  spends_valueBases.seek fun _ _ => (spends_namesAfter _).seek fun _ _ =>
    (spends_exportBody inside).bind fun _ body => .pure body

theorem SpendsAt.eventType (qualifier : Option Qualifier) (present : s.kind ≠ .eof) :
    SpendsAt i true s (eventType inner qualifier) fun k => (kindOutline k).Within n := by
  refine (SpendsAt.bump present).discard.bind fun _ _ => spends_ident.bind fun _ _ =>
    .test fun _ => .branch (.pure (by rw [kindOutline]; trivial))
      (.test fun _ => .branch ?_ (.expected _))
  refine (spends_valueBody inside _ _).bind fun v body => .pure ?_
  rwa [kindOutline]

theorem spends_component :
    Spends i true (component inner) fun k => (kindOutline k).Within n := by
  refine (spends_expectKeyword _).discard.bind fun _ _ => spends_ident.bind fun _ _ =>
    .test fun _ => .branch (.pure (by rw [kindOutline]; trivial)) ?_
  refine spends_nameAfterColon?.bind fun _ _ => (spends_namesAfter _).bind fun _ _ =>
    (spends_exportBody inside).bind fun _ body => .pure ?_
  rwa [kindOutline]

theorem spends_home : Spends i true (home inner) fun k => (kindOutline k).Within n := by
  refine (spends_expectKeyword _).discard.bind fun _ _ => spends_ident.bind fun _ _ =>
    spends_nameAfterColon?.bind fun _ _ => (spends_namesAfter _).bind fun _ _ =>
    (spends_expectKeyword _).discard.bind fun _ _ => spends_scopedName.bind fun _ _ =>
    (spends_eatKeyword _).bind fun _ _ => .branch ?_ ?_
  · refine (spends_scopedName.map (R := fun _ => True)).bind fun _ _ =>
      (spends_exportBody inside).bind fun _ body => .pure ?_
    rwa [kindOutline]
  · refine .given ((spends_exportBody inside).bind fun _ body => .pure ?_)
    rwa [kindOutline]

end

section

variable (l : Level) {inner : Inner} (inside : InnerSpends l.left inner)

include inside

theorem SpendsAt.valueType (qualifier : Option Qualifier) (present : s.kind ≠ .eof) :
    SpendsAt i true s (valueType l inner qualifier) fun k => (kindOutline k).Within l.left := by
  refine (SpendsAt.bump present).discard.bind fun _ _ => spends_ident.bind fun _ _ =>
    .test fun _ => .branch (.pure (by rw [kindOutline]; trivial)) (.test fun _ => .branch ?_
      (.branch .failed ?_))
  · refine (spends_valueBody inside _ _).bind fun v body => .pure ?_
    rwa [kindOutline]
  · refine (spends_typeSpec l _).bind fun _ τ => .pure ?_
    rwa [kindOutline]

theorem SpendsAt.qualified (qualifier : Qualifier) (present : s.kind ≠ .eof) :
    SpendsAt i true s (qualified l inner qualifier) fun k => (kindOutline k).Within l.left := by
  refine (SpendsAt.bump present).discard.bind fun _ _ s => .kind ?_
  split
  · exact spends_interface inside _ s
  · exact spends_interface inside _ s
  · next next => exact .valueType l inside _ (by rw [next]; decide)
  · next next => exact .valueType l inside _ (by rw [next]; decide)
  · next next => exact .eventType inside _ (by rw [next]; decide)
  · next next => exact .eventType inside _ (by rw [next]; decide)
  · exact .expected _
  · exact .expected _

theorem spends_annotationItem : Spends i true (annotationItem l inner) fun item =>
    (item.elim AnnotationMember.outline Definition.outline).Within l.left :=
  .test fun _ => .branch ((inside.definition _).bind fun _ d => .pure d)
    ((spends_annotationMember l).bind fun _ m => .pure m)

theorem spends_annotationDecl : Spends i true (annotationDecl l inner) fun d =>
    (kindOutline (.annotationDecl d)).Within l.left := by
  refine (spends_expect _).discard.bind fun _ _ => spends_ident.discard.bind fun _ _ =>
    spends_ident.bind fun _ _ => (spends_expect _).discard.bind fun _ _ =>
    (spends_many _ (spends_annotationItem l inside)).bind fun items all =>
    (spends_expect _).discard.bind fun _ _ => .pure ?_
  rw [kindOutline]
  refine ⟨Outline.within_map.mpr fun m mem => ?_, within_definitionOutlines.mpr fun d mem => ?_⟩
  · obtain ⟨item, inside, eq⟩ := List.mem_filterMap.mp mem
    obtain rfl := Sum.getLeft?_eq_some_iff.mp eq
    exact all _ inside
  · obtain ⟨item, inside, eq⟩ := List.mem_filterMap.mp mem
    obtain rfl := Sum.getRight?_eq_some_iff.mp eq
    exact all _ inside

theorem spends_definitionKind (i : Bool) :
    Spends i true (definitionKind l inner) fun k => (kindOutline k).Within l.left := by
  intro s
  refine .kind ?_
  split
  · next next =>
    have present : s.kind ≠ .eof := by rw [next]; nofun
    split
    · exact (spends_moduleDecl inside s).bind fun _ body => .pure body
    · exact spends_structDefinition l s
    · exact spends_unionDefinition l s
    · exact (spends_enumType l s).bind fun _ values => .pure (by rwa [kindOutline])
    · exact (spends_bitsetType l s).bind fun _ fields => .pure (by rwa [kindOutline])
    · exact (spends_bitmaskType l s).bind fun _ values => .pure (by rwa [kindOutline])
    · exact (spends_typedefDecl l s).bind fun _ d => .pure (by rwa [kindOutline])
    · exact (SpendsAt.bump present).discard.bind fun _ _ => spends_ident.bind fun _ _ =>
        .pure (by rw [kindOutline]; trivial)
    · exact (spends_constDecl l s).bind fun _ d => .pure (by rwa [kindOutline])
    · exact (spends_exceptionDecl l s).bind fun _ fields => .pure (by rwa [kindOutline])
    · exact spends_interface inside _ s
    · exact .valueType l inside _ present
    · exact .eventType inside _ present
    · exact spends_component inside s
    · exact spends_home inside s
    · exact (SpendsAt.repositoryDecl present).bind fun _ _ =>
        .pure (by rw [kindOutline]; trivial)
    · exact (SpendsAt.repositoryDecl present).bind fun _ _ =>
        .pure (by rw [kindOutline]; trivial)
    · exact .qualified l inside _ present
    · exact .qualified l inside _ present
    · exact .qualified l inside _ present
    · exact .expected _
  · refine .test ?_
    split
    · exact (spends_annotationDecl l inside s).bind fun _ d => .pure d
    · exact .expected _

theorem spends_definitionWith (i : Bool) :
    Spends i true (definitionWith l inner) fun d => d.outline.Within (l.left + 1) := by
  refine .here fun _ => (spends_annotations l).seek fun _ uses =>
    (spends_definitionKind l inside _).bind fun _ kind =>
    (spends_expect _).discard.bind fun _ _ => .spanned fun _ => ?_
  rw [Definition.outline]
  exact ⟨uses, kind⟩

end

theorem innerSpends_at (limit left : Nat) :
    InnerSpends left ⟨definitionAt limit left, exportAt limit left⟩ := by
  induction left with
  | zero => exact ⟨fun _ => .tooDeep _, fun _ => .tooDeep _⟩
  | succ left ih =>
    exact ⟨spends_definitionWith ⟨limit, left, false⟩ ih, fun _ =>
      spends_exportWith ⟨limit, left, false⟩ (spends_definitionKind ⟨limit, left, false⟩ ih)⟩

/-! Imports. -/

theorem spends_importDecl : Spends i true importDecl fun _ => True := by
  refine (spends_expectKeyword _).bind fun _ _ => .test fun _ => .branch ?_ ?_
  · exact (spends_stringLiteral.map (R := fun _ => True)).bind fun _ _ =>
      (spends_expect _).discard.bind fun _ _ => .spanned fun _ => trivial
  · exact (spends_scopedName.map (R := fun _ => True)).bind fun _ _ =>
      (spends_expect _).discard.bind fun _ _ => .spanned fun _ => trivial

/-- Where the imports go on, a token of the one that failed is behind. -/
theorem importDecl_recovers {t : Cursor} {e : SyntaxError} (next : s.atKeyword .importKw = true)
    (failed : importDecl s = .error e t) :
    ∃ used new, Spent true s ((t.report e).recover 0) used new ∧ used ≠ [] := by
  obtain ⟨used, new, spent, blames⟩ := (spends_importDecl (i := false) s).of_error failed
  obtain ⟨more, passed⟩ := spent.recover blames (present_of_atKeyword next)
  exact ⟨more, _, passed, passed.ne_nil_of_error⟩

theorem paid_imports (s : Cursor) : Paid (imports s).1.length s (imports s).2 := by
  fun_induction imports s with
  | case1 s next i t read shorter more u rest ih =>
    obtain ⟨-, used, new, spent, some⟩ := (spends_importDecl s).of_ok read
    rw [rest] at ih
    exact ih.item spent some
  | case2 s next i t read longer =>
    obtain ⟨-, used, new, spent, some⟩ := (spends_importDecl s).of_ok read
    exact absurd (spent.shorter some) longer
  | case3 s next e failed read t shorter ih =>
    obtain ⟨used, new, spent, -⟩ := importDecl_recovers next read
    exact ih.error spent
  | case4 s next e failed read t longer =>
    obtain ⟨used, new, spent, some⟩ := importDecl_recovers next read
    exact absurd (spent.shorter some) longer
  | case5 s other => exact .refl s

end Idl.Grammar
