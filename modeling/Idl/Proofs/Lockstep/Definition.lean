import Idl.Grammar.Definition
import Idl.Proofs.Lockstep.Type

/-!
Exports and definitions in lockstep. The semicolon behind a definition is one of its own, so inside
of a body a definition goes in lockstep as a whole, and elsewhere all but its end does. Main
statements: `lockstep_definitionKind` and `inside_at`.
-/

set_option autoImplicit false

namespace Idl.Grammar

variable {α : Type} {m : Terms} {base : Nat} {i j : Stage} {s t : Cursor}

/-! Exports. -/

theorem lockstep_scopedNames : Lockstep m i i.take scopedNames scopedNames :=
  .commaList fun _ => lockstep_scopedName

theorem lockstep_raises (word : Keyword) : Lockstep m i i (raises word) (raises word) :=
  (lockstep_eatKeyword _).bind fun _ => .branch
    ((lockstep_expect (by decide)).discard.keep.bind fun _ =>
      lockstep_scopedNames.keep.bind fun _ =>
      (lockstep_expect (by decide)).discard.keep.bind fun _ => .pure _)
    (.pure _)

theorem lockstep_direction : Lockstep m i i.take direction direction := by
  intro base s t
  refine .kind ?_
  split
  · next next => exact (LockstepAt.bump (by rw [next]; decide)).map.bind fun _ => .pure _
  · next next => exact (LockstepAt.bump (by rw [next]; decide)).map.bind fun _ => .pure _
  · next next => exact (LockstepAt.bump (by rw [next]; decide)).map.bind fun _ => .pure _
  · exact Lockstep.expected _ base s t

theorem lockstep_context : Lockstep m i i context context :=
  (lockstep_eatKeyword _).bind fun _ => .branch
    ((lockstep_expect (by decide)).discard.keep.bind fun _ =>
      (Lockstep.commaList fun _ => lockstep_stringLiteral).keep.bind fun _ =>
      (lockstep_expect (by decide)).discard.keep.bind fun _ => .pure _)
    (.pure _)

section

variable {l l' : Level} (fits : Fits m l l')

include fits

theorem lockstep_param : Lockstep m i i.take (param l) (param l') :=
  (lockstep_annotations fits).bind fun _ => lockstep_direction.bind fun _ =>
    (lockstep_typeSpec fits _).bind fun _ => lockstep_ident.bind fun _ => .pure _

theorem lockstep_params : Lockstep m i i.take (params l) (params l') := by
  refine (lockstep_expect (by decide)).discard.bind fun _ => .test (respects_at? _) fun _ =>
    .branch ?_ ?_
  · exact (Lockstep.pure _).bind fun _ => (lockstep_expect (by decide)).discard.bind fun _ =>
      .pure _
  · exact (Lockstep.commaList fun _ => lockstep_param fits).bind fun _ =>
      (lockstep_expect (by decide)).discard.bind fun _ => .pure _

theorem lockstep_attributeDecl (uses : List AnnotationUse) :
    Lockstep m i i.take (attributeDecl l uses) (attributeDecl l' uses) := by
  refine .here fun _ => (lockstep_eatKeyword _).bind fun readonly =>
    (lockstep_expectKeyword _).discard.bind fun _ => (lockstep_typeSpec fits _).bind fun _ =>
    (Lockstep.commaList fun _ => lockstep_ident).bind fun _ => (lockstep_raises _).bind fun _ =>
    .branch ?_ ?_
  · exact (Lockstep.pure _).bind fun _ => .spanned
  · exact (lockstep_raises _).bind fun _ => .spanned

theorem lockstep_operation (uses : List AnnotationUse) (start : Span) :
    Lockstep m i i.take (operation l uses start) (operation l' uses start) := by
  have more (j : Stage) (oneway : Bool) (result : Option TypeSpec) :
      Lockstep m j j.take (do
        let name ← ident
        let ps ← params l
        let names ← raises .raises
        let texts ← context
        return (⟨uses, oneway, result, name, ps, names, texts, ← spanFrom start⟩ : Operation)) (do
        let name ← ident
        let ps ← params l'
        let names ← raises .raises
        let texts ← context
        return ⟨uses, oneway, result, name, ps, names, texts, ← spanFrom start⟩) :=
    lockstep_ident.bind fun _ => (lockstep_params fits).bind fun _ => (lockstep_raises _).bind
      fun _ => lockstep_context.bind fun _ => .spanned
  refine (lockstep_eatKeyword _).bind fun _ => (lockstep_eatKeyword _).bind fun _ => .branch ?_ ?_
  · exact (Lockstep.pure _).bind fun _ => more _ _ _
  · exact (lockstep_typeSpec fits _).map.bind fun _ => more _ _ _

theorem LockstepAt.stateMember (uses : List AnnotationUse) (start : Span) (isPublic : Bool)
    (plain : Plain s.kind) : LockstepAt m base i i.take s t
      (stateMember l uses start isPublic) (stateMember l' uses start isPublic) :=
  (LockstepAt.bump plain).map.bind fun _ => (lockstep_typeSpec fits _).bind fun _ =>
    (lockstep_declarators fits).bind fun _ => .spanned

theorem LockstepAt.initializer (start : Span) (kind : InitializerKind) (plain : Plain s.kind) :
    LockstepAt m base i i.take s t (initializer l start kind) (initializer l' start kind) :=
  (LockstepAt.bump plain).map.bind fun _ => lockstep_ident.bind fun _ =>
    (lockstep_params fits).bind fun _ => (lockstep_raises _).bind fun _ => .spanned

end

theorem LockstepAt.port (start : Span) {kind : Parser PortKind} {word : Keyword}
    (known : portKind? word = some kind) (plain : Plain s.kind) :
    LockstepAt m base i i.take s t (port start kind) (port start kind) := by
  have kinds : LockstepAt m base i i.take s t kind kind := by
    unfold portKind? at known
    split at known
    · cases known
      exact (LockstepAt.bump plain).map.bind fun _ => .pure _
    · cases known
      exact (LockstepAt.bump plain).map.bind fun _ => (lockstep_eatKeyword _).bind fun _ => .pure _
    · cases known
      exact (LockstepAt.bump plain).map.bind fun _ => .pure _
    · cases known
      exact (LockstepAt.bump plain).map.bind fun _ => .pure _
    · cases known
      exact (LockstepAt.bump plain).map.bind fun _ => .pure _
    · cases known
  exact kinds.bind fun _ => lockstep_scopedName.bind fun _ => lockstep_ident.bind fun _ => .spanned

theorem respects_startsInnerDefinition : Respects startsInnerDefinition := fun _ _ ahead => by
  rw [startsInnerDefinition, startsInnerDefinition, ahead.kind]

section

variable {l l' : Level} (fits : Fits m l l')

include fits

theorem lockstep_plainExport (uses : List AnnotationUse) (start : Span) :
    Lockstep m i i.take (plainExport l uses start) (plainExport l' uses start) := by
  intro base s t
  refine .kind ?_
  split
  · exact (lockstep_attributeDecl fits uses base s t).bind fun _ => .pure _
  · exact (lockstep_attributeDecl fits uses base s t).bind fun _ => .pure _
  · next next =>
    exact (LockstepAt.stateMember fits _ _ _ (by rw [next]; decide)).bind fun _ => .pure _
  · next next =>
    exact (LockstepAt.stateMember fits _ _ _ (by rw [next]; decide)).bind fun _ => .pure _
  · next next =>
    exact (LockstepAt.initializer fits _ _ (by rw [next]; decide)).bind fun _ => .pure _
  · next next =>
    exact (LockstepAt.initializer fits _ _ (by rw [next]; decide)).bind fun _ => .pure _
  · next next =>
    split
    · next known =>
      exact (LockstepAt.port start known (by rw [next]; exact .keyword _)).bind fun _ => .pure _
    · exact (lockstep_operation fits uses start base s t).bind fun _ => .pure _
  · exact (lockstep_operation fits uses start base s t).bind fun _ => .pure _

theorem lockstep_exportWith (inner : m.inner) {p q : Parser (DefinitionKind Definition)}
    (definition : ∀ i, Lockstep m i i.take p q) :
    Lockstep m i i.take (exportWith l p) (exportWith l' q) :=
  .here fun _ => (lockstep_annotations fits).bind fun _ => .test respects_startsInnerDefinition
    fun _ => .branch
      ((definition _).bind fun _ => (lockstep_semi (.inl inner)).discard.bind fun _ => .spanned)
      ((lockstep_plainExport fits _ _).bind fun _ =>
        (lockstep_semi (.inl inner)).discard.bind fun _ => .pure _)

end

/-! Definitions. -/

/-- Readers of what stands inside of braces. -/
structure Inside (m : Terms) (inner inner' : Inner) : Prop where
  definition : ∀ i, Lockstep { m with inner := True } i i.take inner.definition inner'.definition
  exportItem : ∀ i, Lockstep { m with inner := True } i i.take inner.exportItem inner'.exportItem

section

variable {l l' : Level} (fits : Fits m l l')

include fits

theorem lockstep_structDefinition :
    Lockstep m i i.take (structDefinition l) (structDefinition l') :=
  (lockstep_expectKeyword _).bind fun _ => lockstep_ident.bind fun _ =>
    .test (respects_at? _) fun _ => .branch (.pure _)
      ((lockstep_structBody fits (lockstep_typeSpec fits) _ _).bind fun _ => .pure _)

theorem lockstep_unionDefinition : Lockstep m i i.take (unionDefinition l) (unionDefinition l') :=
  (lockstep_expectKeyword _).bind fun _ => lockstep_ident.bind fun _ =>
    .test (respects_at? _) fun _ => .branch (.pure _)
      ((lockstep_unionBody fits (lockstep_typeSpec fits) _ _).bind fun _ => .pure _)

theorem lockstep_typedefDecl : Lockstep m i i.take (typedefDecl l) (typedefDecl l') :=
  (lockstep_expectKeyword _).discard.bind fun _ => (lockstep_typeSpec fits _).bind fun _ =>
    (lockstep_declarators fits).bind fun _ => .pure _

theorem lockstep_constDecl : Lockstep m i i.take (constDecl l) (constDecl l') :=
  (lockstep_expectKeyword _).discard.bind fun _ => (lockstep_typeSpec fits _).bind fun _ =>
    lockstep_ident.bind fun _ => (lockstep_expect (by decide)).discard.bind fun _ =>
    (lockstep_constExpr fits).bind fun _ => .pure _

theorem lockstep_exceptionDecl : Lockstep m i i.take (exceptionDecl l) (exceptionDecl l') :=
  (lockstep_expectKeyword _).discard.bind fun _ => lockstep_ident.bind fun _ =>
    lockstep_leftBrace.discard.bind fun _ =>
    (lockstep_members fits (lockstep_typeSpec fits) (Nat.succ_pos _)).bind fun _ =>
    lockstep_rightBrace.discard.bind fun _ => .pure _

theorem lockstep_annotationMember {taken : Bool} {depth : Nat} (open' : 0 < depth) :
    Lockstep m ⟨taken, depth⟩ ⟨true, depth⟩ (annotationMember l) (annotationMember l') := by
  refine (lockstep_typeSpec fits _).bind fun _ => lockstep_ident.bind fun _ =>
    (lockstep_eatKeyword _).bind fun _ => .branch ?_ ?_
  · exact (lockstep_constExpr fits).map.bind fun _ =>
      (lockstep_semi (.inr open')).discard.bind fun _ => .pure _
  · exact (Lockstep.pure _).bind fun _ => (lockstep_semi (.inr open')).discard.bind fun _ => .pure _

end

theorem LockstepAt.repositoryDecl (plain : Plain s.kind) :
    LockstepAt m base i i.take s t repositoryDecl repositoryDecl :=
  (LockstepAt.bump plain).map.bind fun _ => lockstep_scopedName.bind fun _ =>
    lockstep_stringLiteral.bind fun _ => .pure _

theorem lockstep_namesAfter (word : Keyword) :
    Lockstep m i i (namesAfter word) (namesAfter word) :=
  (lockstep_eatKeyword _).bind fun _ => .branch lockstep_scopedNames.keep (.pure _)

theorem lockstep_nameAfterColon? : Lockstep m i i nameAfterColon? nameAfterColon? :=
  (lockstep_eat (by decide)).bind fun _ => .branch (lockstep_scopedName.keep.bind fun _ => .pure _)
    (.pure _)

theorem lockstep_valueBases : Lockstep m i i valueBases valueBases :=
  (lockstep_eat (by decide)).bind fun _ => .branch
    ((lockstep_eatKeyword _).bind fun _ => lockstep_scopedNames.keep.bind fun _ => .pure _)
    (.pure _)

theorem respects_opensValueBody : Respects opensValueBody := fun _ _ ahead => by
  rw [opensValueBody, opensValueBody, ahead.at?, ahead.at?, ahead.atKeyword]

section

variable {inner inner' : Inner} (inside : Inside m inner inner')

include inside

theorem lockstep_moduleDecl : Lockstep m i i.take (moduleDecl inner) (moduleDecl inner') :=
  (lockstep_expectKeyword _).discard.bind fun _ => lockstep_ident.bind fun _ =>
    lockstep_leftBrace.discard.bind fun _ =>
    (lockstep_bodyItems (inside.definition _).keep).bind fun _ =>
    lockstep_rightBrace.discard.bind fun _ => .pure _

theorem lockstep_exportBody : Lockstep m i i.take (exportBody inner) (exportBody inner') :=
  lockstep_leftBrace.discard.bind fun _ =>
    (lockstep_bodyItems (inside.exportItem _).keep).bind fun _ =>
    lockstep_rightBrace.discard.bind fun _ => .pure _

theorem lockstep_interface (qualifier : Option Qualifier) :
    Lockstep m i i.take (interface inner qualifier) (interface inner' qualifier) := by
  refine (lockstep_expectKeyword _).discard.bind fun _ => lockstep_ident.bind fun _ =>
    .test (respects_at? _) fun _ => .branch (.pure _) ?_
  refine (lockstep_eat (by decide)).bind fun _ => .branch ?_ ?_
  · exact lockstep_scopedNames.bind fun _ => (lockstep_exportBody inside).bind fun _ => .pure _
  · exact (Lockstep.pure _).bind fun _ => (lockstep_exportBody inside).bind fun _ => .pure _

theorem lockstep_valueBody (name : Ident) (qualifier : Option Qualifier) :
    Lockstep m i i.take (valueBody inner name qualifier) (valueBody inner' name qualifier) :=
  lockstep_valueBases.bind fun _ => (lockstep_namesAfter _).bind fun _ =>
    (lockstep_exportBody inside).bind fun _ => .pure _

theorem LockstepAt.valueType {l l' : Level} (fits : Fits m l l') (qualifier : Option Qualifier)
    (plain : Plain s.kind) : LockstepAt m base i i.take s t
      (valueType l inner qualifier) (valueType l' inner' qualifier) :=
  (LockstepAt.bump plain).map.bind fun _ => lockstep_ident.bind fun _ =>
    .test (respects_at? _) fun _ => .branch (.pure _)
      (.test respects_opensValueBody fun _ => .branch
        ((lockstep_valueBody inside _ _).bind fun _ => .pure _)
        (.branch .failed ((lockstep_typeSpec fits _).bind fun _ => .pure _)))

theorem LockstepAt.eventType (qualifier : Option Qualifier) (plain : Plain s.kind) :
    LockstepAt m base i i.take s t (eventType inner qualifier) (eventType inner' qualifier) :=
  (LockstepAt.bump plain).map.bind fun _ => lockstep_ident.bind fun _ =>
    .test (respects_at? _) fun _ => .branch (.pure _)
      (.test respects_opensValueBody fun _ => .branch
        ((lockstep_valueBody inside _ _).bind fun _ => .pure _) (.expected _))

theorem lockstep_component : Lockstep m i i.take (component inner) (component inner') :=
  (lockstep_expectKeyword _).discard.bind fun _ => lockstep_ident.bind fun _ =>
    .test (respects_at? _) fun _ => .branch (.pure _)
      (lockstep_nameAfterColon?.bind fun _ => (lockstep_namesAfter _).bind fun _ =>
        (lockstep_exportBody inside).bind fun _ => .pure _)

theorem lockstep_home : Lockstep m i i.take (home inner) (home inner') := by
  refine (lockstep_expectKeyword _).discard.bind fun _ => lockstep_ident.bind fun _ =>
    lockstep_nameAfterColon?.bind fun _ => (lockstep_namesAfter _).bind fun _ =>
    (lockstep_expectKeyword _).discard.bind fun _ => lockstep_scopedName.bind fun _ =>
    (lockstep_eatKeyword _).bind fun _ => .branch ?_ ?_
  · exact lockstep_scopedName.map.bind fun _ => (lockstep_exportBody inside).bind fun _ => .pure _
  · exact (Lockstep.pure _).bind fun _ => (lockstep_exportBody inside).bind fun _ => .pure _

variable {l l' : Level} (fits : Fits m l l')

include fits

theorem LockstepAt.qualified (qualifier : Qualifier) (plain : Plain s.kind) :
    LockstepAt m base i i.take s t (qualified l inner qualifier)
      (qualified l' inner' qualifier) := by
  refine (LockstepAt.bump plain).map.bind fun _ base s t => .kind ?_
  split
  · exact lockstep_interface inside _ base s t
  · exact lockstep_interface inside _ base s t
  · next next => exact .valueType inside fits _ (by rw [next]; decide)
  · next next => exact .valueType inside fits _ (by rw [next]; decide)
  · next next => exact .eventType inside _ (by rw [next]; decide)
  · next next => exact .eventType inside _ (by rw [next]; decide)
  · exact Lockstep.expected _ base s t
  · exact Lockstep.expected _ base s t

theorem lockstep_annotationItem {taken : Bool} {depth : Nat} (open' : 0 < depth) :
    Lockstep m ⟨taken, depth⟩ ⟨true, depth⟩ (annotationItem l inner) (annotationItem l' inner') :=
  .test respects_startsInnerDefinition fun _ => .branch
    ((Lockstep.around open' (inside.definition _)).bind fun _ => .pure _)
    ((lockstep_annotationMember fits open').bind fun _ => .pure _)

theorem lockstep_annotationDecl :
    Lockstep m i i.take (annotationDecl l inner) (annotationDecl l' inner') :=
  (lockstep_expect (by decide)).discard.bind fun _ => lockstep_ident.discard.bind fun _ =>
    lockstep_ident.bind fun _ => lockstep_leftBrace.discard.bind fun _ =>
    (Lockstep.many respects_atClose
      (lockstep_annotationItem inside fits (Nat.succ_pos _))).bind fun _ =>
    lockstep_rightBrace.discard.bind fun _ => .pure _

theorem lockstep_definitionKind (i : Stage) :
    Lockstep m i i.take (definitionKind l inner) (definitionKind l' inner') := by
  intro base s t
  refine .kind ?_
  split
  · next next =>
    have plain : Plain s.kind := by rw [next]; exact .keyword _
    split
    · exact (lockstep_moduleDecl inside base s t).bind fun _ => .pure _
    · exact lockstep_structDefinition fits base s t
    · exact lockstep_unionDefinition fits base s t
    · exact (lockstep_enumType fits base s t).bind fun _ => .pure _
    · exact (lockstep_bitsetType fits base s t).bind fun _ => .pure _
    · exact (lockstep_bitmaskType fits base s t).bind fun _ => .pure _
    · exact (lockstep_typedefDecl fits base s t).bind fun _ => .pure _
    · exact (LockstepAt.bump plain).map.bind fun _ => lockstep_ident.bind fun _ => .pure _
    · exact (lockstep_constDecl fits base s t).bind fun _ => .pure _
    · exact (lockstep_exceptionDecl fits base s t).bind fun _ => .pure _
    · exact lockstep_interface inside _ base s t
    · exact .valueType inside fits _ plain
    · exact .eventType inside _ plain
    · exact lockstep_component inside base s t
    · exact lockstep_home inside base s t
    · exact (LockstepAt.repositoryDecl plain).bind fun _ => .pure _
    · exact (LockstepAt.repositoryDecl plain).bind fun _ => .pure _
    · exact .qualified inside fits _ plain
    · exact .qualified inside fits _ plain
    · exact .qualified inside fits _ plain
    · exact Lockstep.expected _ base s t
  · refine .test respects_atAnnotationDecl ?_
    split
    · exact (lockstep_annotationDecl inside fits base s t).bind fun _ => .pure _
    · exact Lockstep.expected _ base s t

theorem lockstep_definitionWith (braced : m.inner) (i : Stage) :
    Lockstep m i i.take (definitionWith l inner) (definitionWith l' inner') :=
  .here fun _ => (lockstep_annotations fits).bind fun _ =>
    (lockstep_definitionKind inside fits _).bind fun _ =>
    (lockstep_semi (.inl braced)).discard.bind fun _ => .spanned

end

theorem inside_at (limit left limit' left' : Nat) (within : Within m limit left limit' left') :
    Inside m ⟨definitionAt limit left, exportAt limit left⟩
      ⟨definitionAt limit' left', exportAt limit' left'⟩ := by
  induction left generalizing left' with
  | zero =>
    exact ⟨fun _ => .tooDeep (q := definitionAt limit' left') within fun none => by rw [none]; rfl,
      fun _ => .tooDeep (q := exportAt limit' left') within fun none => by rw [none]; rfl⟩
  | succ left ih =>
    obtain ⟨less, rfl, below⟩ := within.down
    have below' := ih less below
    have inside : Inside { m with inner := True } ⟨definitionAt limit left, exportAt limit left⟩
        ⟨definitionAt limit' less, exportAt limit' less⟩ := ⟨below'.definition, below'.exportItem⟩
    have fits : Fits { m with inner := True } ⟨limit, left, false⟩ ⟨limit', less, false⟩ :=
      ⟨below, rfl⟩
    exact ⟨lockstep_definitionWith inside fits trivial,
      fun _ => lockstep_exportWith fits trivial (lockstep_definitionKind inside fits)⟩

end Idl.Grammar
