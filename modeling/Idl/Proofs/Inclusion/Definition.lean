import Idl.Proofs.Inclusion.Type
import Idl.Proofs.Lockstep.Unit

/-!
Exports and definitions are read with nested spans. An attribute begins behind its annotations, all
others begin with theirs. Main statements: `extends_plainExport`, `extends_definitionKind` and
`innerAdds_at`.
-/

set_option autoImplicit false

namespace Idl.Grammar

variable {start : Span} {i : Bool} {pre : List SpanTree} {s : Cursor}

/-! Exports. -/

theorem adds_direction : Adds direction fun _ => [] := by
  intro s start i pre
  refine .kind ?_
  split
  · next next =>
    exact (AddsAt.silent (Cursor.present_of_kind (by rw [next]; decide))).last
  · next next =>
    exact (AddsAt.silent (Cursor.present_of_kind (by rw [next]; decide))).last
  · next next =>
    exact (AddsAt.silent (Cursor.present_of_kind (by rw [next]; decide))).last
  · exact .expected _

theorem adds_scopedNames : Adds scopedNames nameRow := adds_commaList (.map _) adds_scopedName

theorem mayAdd_raises (word : Keyword) : MayAdd (raises word) nameRow := by
  have names : Adds (do
      discard (expect .leftParen)
      let names ← scopedNames
      discard (expect .rightParen)
      return names) nameRow :=
    .of fun _ _ _ => (adds_expect _).discard.pass fun _ => adds_scopedNames.bind fun _ =>
      (adds_expect _).discard.pass fun _ => .pure rfl
  exact fun _ _ _ => (mayAdd_eatKeyword _).pass fun _ =>
    .branch names.may.last (.pure (List.append_nil _).symm)

theorem mayAdd_context : MayAdd context fun _ => [] := by
  have texts : Adds (do
      discard (expect .leftParen)
      let texts ← commaList stringLiteral
      discard (expect .rightParen)
      return texts) fun _ => [] :=
    .of fun _ _ _ => (adds_expect _).discard.pass fun _ =>
      (adds_commaList ⟨rfl, fun _ _ => rfl⟩ adds_stringLiteral).pass fun _ =>
      (adds_expect _).discard.pass fun _ => .pure (List.append_nil _).symm
  exact fun _ _ _ => (mayAdd_eatKeyword _).pass fun _ =>
    .branch texts.may.last (.pure (List.append_nil _).symm)

theorem adds_param (l : Level) : Adds (param l) Param.row :=
  .of fun _ _ _ => (mayAdd_annotations l).bind fun _ => adds_direction.pass fun _ =>
    (adds_typeSpec l).bind fun _ => adds_ident.bind fun _ =>
    .pure (by simp only [Param.row, List.append_assoc])

theorem adds_params (l : Level) : Adds (params l) fun ps => ps.flatMap Param.row := by
  refine .of fun _ _ _ => (adds_expect _).discard.pass fun _ => .test fun _ => .branch ?_ ?_
  · exact (MayAdd.pure (f := List.flatMap Param.row) rfl).bind fun _ =>
      (adds_expect _).discard.pass fun _ => .pure rfl
  · exact (adds_commaList (.flatMap _) (adds_param l)).bind fun _ =>
      (adds_expect _).discard.pass fun _ => .pure rfl

/-- The annotations that were read before stay in front of the attribute. -/
theorem extends_attributeDecl (l : Level) (uses : List AnnotationUse) :
    Extends start i true (annotationRow uses) (attributeDecl l uses)
      fun a row => row = a.row := by
  refine extends_here (Q := fun a row => a.annotations = uses ∧ row = [a.tree]) (fun _ =>
    (mayAdd_eatKeyword _).pass fun readonly => (adds_expectKeyword _).discard.pass fun _ =>
    (adds_typeSpec l).bind fun _ => (adds_commaList (.map Ident.tree) adds_ident).bind fun _ =>
    (mayAdd_raises _).bind fun _ => .branch ?_ ?_) ?_
  · exact (MayAdd.pure (f := nameRow) rfl).bind fun _ => .spanned fun _ => ⟨rfl, rfl⟩
  · exact (mayAdd_raises _).bind fun _ => .spanned fun _ => ⟨rfl, rfl⟩
  · rintro a row ⟨rfl, rfl⟩
    rfl

theorem extends_operation (l : Level) (uses : List AnnotationUse) :
    Extends start i true (annotationRow uses) (operation l uses start)
      fun o row => row = [o.tree] := by
  have more (i oneway : Bool) (result : Option TypeSpec) :
      Extends start i true (annotationRow uses ++ resultRow result) (do
        let name ← ident
        let ps ← params l
        let names ← raises .raises
        let texts ← context
        return (⟨uses, oneway, result, name, ps, names, texts, ← spanFrom start⟩ : Operation))
        fun o row => row = [o.tree] :=
    adds_ident.bind fun _ => (adds_params l).bind fun _ => (mayAdd_raises _).bind fun _ =>
      mayAdd_context.pass fun _ => .spanned fun _ => by
        simp only [Operation.tree, List.append_assoc, List.cons_append, List.nil_append]
  refine (mayAdd_eatKeyword _).pass fun _ => (mayAdd_eatKeyword _).pass fun _ => .branch ?_ ?_
  · exact (MayAdd.pure rfl).bind fun _ => more _ _ _
  · exact ((adds_typeSpec l).map (h := resultRow) fun _ => rfl).bind fun _ => more _ _ _

theorem ExtendsAt.stateMember (l : Level) (uses : List AnnotationUse) (isPublic : Bool)
    (present : s.rest ≠ []) :
    ExtendsAt start i true (annotationRow uses) s (stateMember l uses start isPublic)
      fun m row => row = [m.member.tree] :=
  (AddsAt.bump present).discard.pass fun _ => (adds_typeSpec l).bind fun _ =>
    (adds_declarators l).bind fun _ => .spanned fun _ => rfl

/-- Annotations in front of an initializer or a port are read and left out. -/
theorem Extends.forget {α : Type} {j : Bool} {p : Parser α} {Q : α → List SpanTree → Prop}
    (rest : Extends start i j [] p Q) : Extends start i j pre p Q :=
  rest.regroup fun _ _ _ => .nil

theorem ExtendsAt.initializer (l : Level) (kind : InitializerKind) (present : s.rest ≠ []) :
    ExtendsAt start i true pre s (initializer l start kind) fun i row => row = [i.tree] :=
  (AddsAt.bump present).discard.pass fun _ => .forget (adds_ident.bind fun _ =>
    (adds_params l).bind fun _ => (mayAdd_raises _).bind fun _ => .spanned fun _ => rfl)

theorem AddsAt.portKind {kind : Parser PortKind} {word : Keyword}
    (known : portKind? word = some kind) (present : s.rest ≠ []) :
    AddsAt s kind fun _ => [] := by
  intro start i pre
  unfold portKind? at known
  split at known
  · cases known
    exact (AddsAt.silent present).last
  · cases known
    exact (AddsAt.bump present).discard.pass fun _ => (mayAdd_eatKeyword _).pass fun _ =>
      .pure (List.append_nil _).symm
  · cases known
    exact (AddsAt.silent present).last
  · cases known
    exact (AddsAt.silent present).last
  · cases known
    exact (AddsAt.silent present).last
  · cases known

theorem ExtendsAt.port {kind : Parser PortKind} {word : Keyword}
    (known : portKind? word = some kind) (present : s.rest ≠ []) :
    ExtendsAt start i true pre s (port start kind) fun p row => row = [p.tree] :=
  (AddsAt.portKind known present).pass fun _ => .forget (adds_scopedName.bind fun _ =>
    adds_ident.bind fun _ => .spanned fun _ => rfl)

theorem extends_plainExport (l : Level) (uses : List AnnotationUse) :
    Extends start i true (annotationRow uses) (plainExport l uses start)
      fun e row => row = e.row := by
  intro s
  refine .kind ?_
  split
  · exact ExtendsAt.bind (extends_attributeDecl l uses s) fun _ _ eq => .pure eq
  · exact ExtendsAt.bind (extends_attributeDecl l uses s) fun _ _ eq => .pure eq
  · next next =>
    exact ExtendsAt.bind (.stateMember l uses _ (Cursor.present_of_kind (by rw [next]; nofun)))
      fun _ _ eq => .pure eq
  · next next =>
    exact ExtendsAt.bind (.stateMember l uses _ (Cursor.present_of_kind (by rw [next]; nofun)))
      fun _ _ eq => .pure eq
  · next next =>
    exact ExtendsAt.bind (.initializer l _ (Cursor.present_of_kind (by rw [next]; nofun)))
      fun _ _ eq => .pure eq
  · next next =>
    exact ExtendsAt.bind (.initializer l _ (Cursor.present_of_kind (by rw [next]; nofun)))
      fun _ _ eq => .pure eq
  · next next =>
    split
    · next known =>
      exact ExtendsAt.bind (.port known (Cursor.present_of_kind (by rw [next]; nofun)))
        fun _ _ eq => .pure eq
    · exact ExtendsAt.bind (extends_operation l uses s) fun _ _ eq => .pure eq
  · exact ExtendsAt.bind (extends_operation l uses s) fun _ _ eq => .pure eq

/-! What a definition adds. -/

/-- All rows of a definition, one after another. -/
def kindRow (kind : DefinitionKind Definition) : List SpanTree := (kindRows kind).flatten

/-- The row goes on with all rows of a definition, which may be mixed. This is a relation, as only
the declaration of an annotation mixes its rows, and what it returns does not tell how. -/
def Shows (pre : List SpanTree) (kind : DefinitionKind Definition) (row : List SpanTree) : Prop :=
  ∃ own, row = pre ++ own ∧ ∀ r ∈ kindRows kind, r.Sublist own

/-- The reader takes a token and adds a definition to any row. -/
def AddsKind (p : Parser (DefinitionKind Definition)) : Prop :=
  ∀ ⦃start i pre⦄, Extends start i true pre p (Shows pre)

theorem kindRow_eq {kind : DefinitionKind Definition} {own : List SpanTree}
    (single : kindRows kind = [own]) : kindRow kind = own := by
  rw [kindRow, single, List.flatten_singleton]

theorem shows_kindRow (kind : DefinitionKind Definition) : Shows pre kind (pre ++ kindRow kind) :=
  ⟨_, rfl, fun _ mem => List.sublist_flatten_of_mem mem⟩

theorem AddsAt.shows {p : Parser (DefinitionKind Definition)} (adds : AddsAt s p kindRow) :
    ExtendsAt start i true pre s p (Shows pre) :=
  adds.last.weaken fun kind _ eq => eq ▸ shows_kindRow kind

theorem AddsAt.toKind {α : Type} {p : Parser α} {f : α → List SpanTree}
    {g : α → DefinitionKind Definition} (adds : AddsAt s p f)
    (single : ∀ a, kindRows (g a) = [f a]) :
    AddsAt s (p >>= fun a => pure (g a)) kindRow :=
  fun _ _ _ => adds.bind fun a => .pure (by rw [kindRow_eq (single a)])

/-- A definition and its semicolon close the stretch that begins with its annotations. -/
theorem AddsKind.definition {β : Type} {what : Parser (DefinitionKind Definition)}
    (kinds : AddsKind what) (uses : List AnnotationUse) {g : Definition → β}
    {Q : β → List SpanTree → Prop} (shown : ∀ d, Q (g d) [d.tree]) :
    Extends start i true (annotationRow uses) (do
      let kind ← what
      discard (expect .semi)
      let span ← spanFrom start
      return g ⟨uses, kind, span⟩) Q := by
  refine fun s => ExtendsAt.bind (kinds s) fun kind row => ?_
  rintro ⟨own, rfl, inside⟩
  -- the annotations are in front of each row of the definition
  refine (adds_expect _).discard.pass fun _ =>
    .closing ((kindRows kind).map (annotationRow uses ++ ·)) (fun r mem => ?_) fun span => ?_
  · obtain ⟨part, mem', rfl⟩ := List.mem_map.mp mem
    exact (inside part mem').append_left _
  · have tree := shown ⟨uses, kind, span⟩
    rwa [Definition.tree] at tree

theorem adds_exportWith (l : Level) {what : Parser (DefinitionKind Definition)}
    (kinds : AddsKind what) : Adds (exportWith l what) Export.row :=
  adds_here fun _ => (mayAdd_annotations l).bind fun uses => .test fun _ => .branch
    (kinds.definition uses fun _ => rfl)
    (fun s => ExtendsAt.bind (extends_plainExport l uses s) fun _ _ eq =>
      (adds_expect _).discard.pass fun _ => .pure eq)

/-! Definitions that hold no others. -/

theorem adds_structDefinition (l : Level) : Adds (structDefinition l) kindRow :=
  adds_ofKeyword fun _ => adds_ident.bind fun _ => .test fun _ => .branch
    (.pure (by rw [kindRow_eq (kindRows_forward _)]; rfl))
    (fun s => ExtendsAt.bind (extends_structBody l (adds_typeSpec l) s) fun _ _ eq =>
      .pure (by rw [eq, kindRow_eq (by rw [kindRows])]))

theorem adds_unionDefinition (l : Level) : Adds (unionDefinition l) kindRow :=
  adds_ofKeyword fun _ => adds_ident.bind fun _ => .test fun _ => .branch
    (.pure (by rw [kindRow_eq (kindRows_forward _)]; rfl))
    (fun s => ExtendsAt.bind (extends_unionBody l (adds_typeSpec l) s) fun _ _ eq =>
      .pure (by rw [eq, kindRow_eq (by rw [kindRows])]))

theorem adds_typedefDecl (l : Level) : Adds (typedefDecl l) Typedef.row :=
  .of fun _ _ _ => (adds_expectKeyword _).discard.pass fun _ => (adds_typeSpec l).bind fun _ =>
    (adds_declarators l).bind fun _ => .pure (List.append_assoc _ _ _)

theorem adds_constDecl (l : Level) : Adds (constDecl l) ConstDecl.row :=
  .of fun _ _ _ => (adds_expectKeyword _).discard.pass fun _ => (adds_typeSpec l).bind fun _ =>
    adds_ident.bind fun _ => (adds_expect _).discard.pass fun _ => (adds_constExpr l).bind fun _ =>
    .pure (by simp [ConstDecl.row])

theorem adds_exceptionDecl (l : Level) :
    Adds (exceptionDecl l) fun d => d.name.tree :: memberRow d.members :=
  .of fun _ _ _ => (adds_expectKeyword _).discard.pass fun _ => adds_ident.bind fun _ =>
    (adds_expect _).discard.pass fun _ => (mayAdd_members l (adds_typeSpec l)).bind fun _ =>
    (adds_expect _).discard.pass fun _ => .pure (by simp)

theorem AddsAt.repositoryDecl (present : s.rest ≠ []) :
    AddsAt s repositoryDecl fun d => [d.target.tree] :=
  fun _ _ _ => (AddsAt.bump present).discard.pass fun _ => adds_scopedName.bind fun _ =>
    adds_stringLiteral.pass fun _ => .pure rfl

theorem adds_annotationMember (l : Level) : Adds (annotationMember l) AnnotationMember.row := by
  refine .of fun _ _ _ => (adds_typeSpec l).bind fun _ => adds_ident.bind fun _ =>
    (mayAdd_eatKeyword _).pass fun _ => .branch ?_ ?_
  · exact ((adds_constExpr l).map (h := boundRow) fun _ => rfl).bind fun _ =>
      (adds_expect _).discard.pass fun _ => .pure (by simp [AnnotationMember.row])
  · exact (MayAdd.pure (f := boundRow) rfl).bind fun _ => (adds_expect _).discard.pass fun _ =>
      .pure (by simp [AnnotationMember.row])

theorem mayAdd_namesAfter (word : Keyword) : MayAdd (namesAfter word) nameRow := fun _ _ _ =>
  (mayAdd_eatKeyword _).pass fun _ => .branch adds_scopedNames.may.last
    (.pure (List.append_nil _).symm)

theorem mayAdd_nameAfterColon? : MayAdd nameAfterColon? fun n => nameRow n.toList := fun _ _ _ =>
  (mayAdd_eat _).pass fun _ => .branch (adds_scopedName.may.bind fun _ => .pure rfl)
    (.pure (List.append_nil _).symm)

theorem mayAdd_valueBases : MayAdd valueBases fun r => nameRow r.2 := fun _ _ _ =>
  (mayAdd_eat _).pass fun _ => .branch ((mayAdd_eatKeyword _).pass fun _ =>
    adds_scopedNames.may.bind fun _ => .pure rfl) (.pure (List.append_nil _).symm)

/-! Definitions that hold others. -/

/-- Readers of definitions and exports one level down. -/
structure InnerAdds (inner : Inner) : Prop where
  definition : Adds inner.definition fun d => [d.tree]
  exportItem : Adds inner.exportItem Export.row

theorem gathers_definitionRow : Gathers definitionRow fun d => [d.tree] :=
  definitionRow_eq ▸ .map _

theorem gathers_exportRow : Gathers exportRow Export.row := exportRow_eq ▸ .flatMap _

section

variable {inner : Inner} (inside : InnerAdds inner)

include inside

theorem adds_moduleDecl :
    Adds (moduleDecl inner) fun d => d.name.tree :: definitionRow d.definitions :=
  .of fun _ _ _ => (adds_expectKeyword _).discard.pass fun _ => adds_ident.bind fun _ =>
    (adds_expect _).discard.pass fun _ =>
    (mayAdd_bodyItems gathers_definitionRow inside.definition).bind fun _ =>
    (adds_expect _).discard.pass fun _ => .pure (by simp)

theorem adds_exportBody : Adds (exportBody inner) exportRow :=
  .of fun _ _ _ => (adds_expect _).discard.pass fun _ =>
    (mayAdd_bodyItems gathers_exportRow inside.exportItem).bind fun _ =>
    (adds_expect _).discard.pass fun _ => .pure rfl

theorem adds_interface (qualifier : Option Qualifier) :
    Adds (interface inner qualifier) kindRow := by
  refine .of fun _ _ _ => (adds_expectKeyword _).discard.pass fun _ => adds_ident.bind fun _ =>
    .test fun _ => .branch (.pure (by rw [kindRow_eq (kindRows_forward _)])) ?_
  refine (mayAdd_eat _).pass fun _ => .branch ?_ ?_
  · exact adds_scopedNames.bind fun _ => (adds_exportBody inside).bind fun _ =>
      .pure (by rw [kindRow_eq (by rw [kindRows])]; simp)
  · exact (MayAdd.pure (f := nameRow) rfl).bind fun _ => (adds_exportBody inside).bind fun _ =>
      .pure (by rw [kindRow_eq (by rw [kindRows])]; simp)

theorem extends_valueBody (name : Ident) (qualifier : Option Qualifier) :
    Extends start i true (pre ++ [name.tree]) (valueBody inner name qualifier) fun v row =>
      row = pre ++ kindRow (.value v) ∧ row = pre ++ kindRow (.event v) := by
  refine mayAdd_valueBases.bind fun _ => (mayAdd_namesAfter _).bind fun _ =>
    (adds_exportBody inside).bind fun _ => .pure ?_
  rw [kindRow_eq (by rw [kindRows]), kindRow_eq (by rw [kindRows])]
  simp

theorem AddsAt.valueType (l : Level) (qualifier : Option Qualifier) (present : s.rest ≠ []) :
    AddsAt s (valueType l inner qualifier) kindRow := by
  refine fun _ _ _ => (AddsAt.bump present).discard.pass fun _ => adds_ident.bind fun name =>
    .test fun _ => .branch (.pure (by rw [kindRow_eq (kindRows_forward _)])) (.test fun _ => .branch
      (fun s => ExtendsAt.bind (extends_valueBody inside _ _ s) fun _ _ both => .pure both.1)
      (.branch .failed ((adds_typeSpec l).bind fun _ => .pure ?_)))
  rw [kindRow_eq (by rw [kindRows])]
  simp

theorem AddsAt.eventType (qualifier : Option Qualifier) (present : s.rest ≠ []) :
    AddsAt s (eventType inner qualifier) kindRow :=
  fun _ _ _ => (AddsAt.bump present).discard.pass fun _ => adds_ident.bind fun _ =>
    .test fun _ => .branch (.pure (by rw [kindRow_eq (kindRows_forward _)])) (.test fun _ => .branch
      (fun s => ExtendsAt.bind (extends_valueBody inside _ _ s) fun _ _ both => .pure both.2)
      (.expected _))

theorem adds_component : Adds (component inner) kindRow := by
  refine .of fun _ _ _ => (adds_expectKeyword _).discard.pass fun _ => adds_ident.bind fun _ =>
    .test fun _ => .branch (.pure (by rw [kindRow_eq (kindRows_forward _)])) ?_
  refine mayAdd_nameAfterColon?.bind fun _ => (mayAdd_namesAfter _).bind fun _ =>
    (adds_exportBody inside).bind fun _ => .pure ?_
  rw [kindRow_eq (by rw [kindRows])]
  simp

theorem adds_home : Adds (home inner) kindRow := by
  refine .of fun _ _ _ => (adds_expectKeyword _).discard.pass fun _ => adds_ident.bind fun _ =>
    mayAdd_nameAfterColon?.bind fun _ => (mayAdd_namesAfter _).bind fun _ =>
    (adds_expectKeyword _).discard.pass fun _ => adds_scopedName.bind fun _ =>
    (mayAdd_eatKeyword _).pass fun _ => .branch ?_ ?_
  · exact (adds_scopedName.map (h := fun n => nameRow n.toList) fun _ => rfl).bind fun _ =>
      (adds_exportBody inside).bind fun _ => .pure (by rw [kindRow_eq (by rw [kindRows])]; simp)
  · exact (MayAdd.pure (f := fun n => nameRow n.toList) rfl).bind fun _ =>
      (adds_exportBody inside).bind fun _ => .pure (by rw [kindRow_eq (by rw [kindRows])]; simp)

variable (l : Level)

theorem AddsAt.qualified (qualifier : Qualifier) (present : s.rest ≠ []) :
    AddsAt s (qualified l inner qualifier) kindRow := by
  refine fun _ _ _ => (AddsAt.bump present).discard.pass fun _ s => .kind ?_
  split
  · exact (adds_interface inside _ s).last
  · exact (adds_interface inside _ s).last
  · next next =>
    exact (AddsAt.valueType inside l _ (Cursor.present_of_kind (by rw [next]; decide))).last
  · next next =>
    exact (AddsAt.valueType inside l _ (Cursor.present_of_kind (by rw [next]; decide))).last
  · next next =>
    exact (AddsAt.eventType inside _ (Cursor.present_of_kind (by rw [next]; decide))).last
  · next next =>
    exact (AddsAt.eventType inside _ (Cursor.present_of_kind (by rw [next]; decide))).last
  · exact .expected _
  · exact .expected _

/-! The items of an annotation. -/

omit inside in
theorem sublist_members (items : List (AnnotationMember ⊕ Definition)) :
    ((items.filterMap Sum.getLeft?).flatMap AnnotationMember.row).Sublist
      (items.flatMap (Sum.elim AnnotationMember.row fun d => [d.tree])) := by
  induction items with
  | nil => exact List.Sublist.refl _
  | cons item items ih =>
    cases item with
    | inl m => exact (List.Sublist.refl _).append ih
    | inr d => exact ih.trans (List.sublist_append_right _ _)

omit inside in
theorem sublist_definitions (items : List (AnnotationMember ⊕ Definition)) :
    (definitionRow (items.filterMap Sum.getRight?)).Sublist
      (items.flatMap (Sum.elim AnnotationMember.row fun d => [d.tree])) := by
  induction items with
  | nil => exact List.nil_sublist _
  | cons item items ih =>
    cases item with
    | inl m => exact ih.trans (List.sublist_append_right _ _)
    | inr d =>
      rw [List.filterMap_cons_some (f := Sum.getRight?) rfl, definitionRow]
      exact ih.cons_cons _

theorem extends_annotationDecl : Extends start i true pre (annotationDecl l inner) fun d row =>
    Shows pre (.annotationDecl d) row := by
  have item : Adds (annotationItem l inner) (Sum.elim AnnotationMember.row fun d => [d.tree]) :=
    .of fun _ _ _ => .test fun _ => .branch (inside.definition.bind fun _ => .pure rfl)
      ((adds_annotationMember l).bind fun _ => .pure rfl)
  refine (adds_expect _).discard.pass fun _ => adds_ident.discard.pass fun _ =>
    adds_ident.bind fun name => (adds_expect _).discard.pass fun _ =>
    (mayAdd_many (.flatMap _) _ item).bind fun items => (adds_expect _).discard.pass fun _ =>
    .pure ⟨_, List.append_assoc _ _ _, ?_⟩
  rw [kindRows]
  simp only [List.forall_mem_cons]
  exact ⟨(sublist_members items).cons_cons _, (sublist_definitions items).cons_cons _,
    List.forall_mem_nil _⟩

theorem extends_definitionKind : AddsKind (definitionKind l inner) := by
  intro start i pre s
  refine .kind ?_
  split
  · next next =>
    have present : s.rest ≠ [] := Cursor.present_of_kind (by rw [next]; nofun)
    refine AddsAt.shows ?_
    split
    · exact (adds_moduleDecl inside s).toKind fun _ => by rw [kindRows]
    · exact adds_structDefinition l s
    · exact adds_unionDefinition l s
    · exact (adds_enumType l s).toKind fun _ => by rw [kindRows]
    · exact (adds_bitsetType l s).toKind fun _ => by rw [kindRows]
    · exact (adds_bitmaskType l s).toKind fun _ => by rw [kindRows]
    · exact (adds_typedefDecl l s).toKind fun _ => by rw [kindRows]
    · exact fun _ _ _ => (AddsAt.bump present).discard.pass fun _ => adds_ident.bind fun _ =>
        .pure (by rw [kindRow_eq (by rw [kindRows])])
    · exact (adds_constDecl l s).toKind fun _ => by rw [kindRows]
    · exact (adds_exceptionDecl l s).toKind fun _ => by rw [kindRows]
    · exact adds_interface inside _ s
    · exact .valueType inside l _ present
    · exact .eventType inside _ present
    · exact adds_component inside s
    · exact adds_home inside s
    · exact (AddsAt.repositoryDecl present).toKind fun _ => by rw [kindRows]
    · exact (AddsAt.repositoryDecl present).toKind fun _ => by rw [kindRows]
    · exact .qualified inside l _ present
    · exact .qualified inside l _ present
    · exact .qualified inside l _ present
    · exact fun _ _ _ => .expected _
  · refine .test ?_
    split
    · exact ExtendsAt.bind (extends_annotationDecl inside l s) fun _ _ shown => .pure shown
    · exact .expected _

theorem adds_definitionWith : Adds (definitionWith l inner) fun d => [d.tree] :=
  adds_here fun _ => (mayAdd_annotations l).bind fun uses =>
    (extends_definitionKind inside l).definition uses (g := fun d => d)
      (Q := fun d row => row = [d.tree]) fun _ => rfl

end

theorem innerAdds_at (limit left : Nat) :
    InnerAdds ⟨definitionAt limit left, exportAt limit left⟩ := by
  induction left with
  | zero => exact ⟨adds_tooDeep _, adds_tooDeep _⟩
  | succ left ih =>
    exact ⟨adds_definitionWith ih _, adds_exportWith _ (extends_definitionKind ih _)⟩

end Idl.Grammar
