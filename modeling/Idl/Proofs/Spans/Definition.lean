import Idl.Proofs.Lockstep.Unit
import Idl.Proofs.Spans.Type

/-!
Exports, definitions and units are read with good places. Main statement: `placed_parseTokens`.
-/

set_option autoImplicit false

namespace Idl.Grammar

variable {P : Span → Prop} {i : Bool} {s : Cursor}

theorem places_direction : Places P i true direction fun _ => True := by
  intro s
  refine .kind ?_
  split
  · next next => exact (PlacesAt.bump (by rw [next]; decide)).discard.bind fun _ _ => .pure trivial
  · next next => exact (PlacesAt.bump (by rw [next]; decide)).discard.bind fun _ _ => .pure trivial
  · next next => exact (PlacesAt.bump (by rw [next]; decide)).discard.bind fun _ _ => .pure trivial
  · exact .expected _

section

variable (join : ∀ a b, P a → P b → P (a.join b))

include join

/-! Exports. -/

theorem places_scopedNames : Places P i true scopedNames fun _ => True :=
  (places_commaList fun _ => places_scopedName join).free

theorem places_raises (word : Keyword) : Places P i i (raises word) fun _ => True :=
  (places_eatKeyword _).seek fun _ _ => .branch
    ((places_expect _).discard.bind fun _ _ => (places_scopedNames join).bind fun _ _ =>
      (places_expect _).discard.bind fun _ _ => .pure trivial).keep
    (.pure trivial)

theorem places_context : Places P i i context fun _ => True :=
  (places_eatKeyword _).seek fun _ _ => .branch
    ((places_expect _).discard.bind fun _ _ =>
      (places_commaList fun _ => places_stringLiteral join).bind fun _ _ =>
      (places_expect _).discard.bind fun _ _ => .pure trivial).keep
    (.pure trivial)

theorem places_param (l : Level) : Places P i true (param l) fun _ => True :=
  (places_annotations join l).seek fun _ _ => places_direction.bind fun _ _ =>
    (places_typeSpec join l _).bind fun _ _ => places_ident.bind fun _ _ => .pure trivial

theorem places_params (l : Level) : Places P i true (params l) fun _ => True := by
  refine (places_expect _).discard.bind fun _ _ => .test fun _ => .branch ?_ ?_
  · exact (Places.pure (Q := fun _ => True) trivial).bind fun _ _ =>
      (places_expect _).discard.bind fun _ _ => .pure trivial
  · exact (places_commaList fun _ => places_param join l).bind fun _ _ =>
      (places_expect _).discard.bind fun _ _ => .pure trivial

theorem places_attributeDecl (l : Level) (uses : List AnnotationUse) :
    Places P i true (attributeDecl l uses) fun _ => True := by
  refine .here fun _ start => (places_eatKeyword _).seek fun readonly _ =>
    (places_expectKeyword _).discard.bind fun _ _ => (places_typeSpec join l _).bind fun _ _ =>
    (places_commaList fun _ => places_ident).bind fun _ _ => (places_raises join _).bind fun _ _ =>
    .branch ?_ ?_
  · exact (Places.pure (Q := fun _ => True) trivial).bind fun _ _ =>
      .spanned join start fun _ _ => trivial
  · exact (places_raises join _).bind fun _ _ => .spanned join start fun _ _ => trivial

theorem places_operation (l : Level) (uses : List AnnotationUse) {start : Span} (place : P start) :
    Places P i true (operation l uses start) fun _ => True := by
  have more (i oneway : Bool) (result : Option TypeSpec) : Places P i true (do
      let name ← ident
      let ps ← params l
      let names ← raises .raises
      let texts ← context
      return (⟨uses, oneway, result, name, ps, names, texts, ← spanFrom start⟩ : Operation))
      fun _ => True :=
    places_ident.bind fun _ _ => (places_params join l).bind fun _ _ =>
      (places_raises join _).bind fun _ _ => (places_context join).bind fun _ _ =>
      .spanned join place fun _ _ => trivial
  refine (places_eatKeyword _).seek fun _ _ => (places_eatKeyword _).seek fun _ _ => .branch ?_ ?_
  · exact (Places.pure (Q := fun _ => True) trivial).seek fun _ _ => more _ _ _
  · exact ((places_typeSpec join l _).free.map (R := fun _ => True)).bind fun _ _ => more _ _ _

theorem PlacesAt.stateMember (l : Level) {uses : List AnnotationUse}
    (annotations : ∀ a ∈ uses, a.Placed P) {start : Span} (place : P start) (isPublic : Bool)
    (present : s.kind ≠ .eof) :
    PlacesAt P i true s (stateMember l uses start isPublic) fun m => m.member.Placed P :=
  (PlacesAt.bump present).discard.bind fun _ _ => (places_typeSpec join l _).bind fun _ τ =>
    (places_declarators join l).bind fun _ ds => .spanned join place fun _ _ =>
    ⟨annotations, τ, ds⟩

theorem PlacesAt.initializer (l : Level) {start : Span} (place : P start) (kind : InitializerKind)
    (present : s.kind ≠ .eof) : PlacesAt P i true s (initializer l start kind) fun _ => True :=
  (PlacesAt.bump present).discard.bind fun _ _ => places_ident.bind fun _ _ =>
    (places_params join l).bind fun _ _ => (places_raises join _).bind fun _ _ =>
    .spanned join place fun _ _ => trivial

theorem PlacesAt.port {start : Span} (place : P start) {kind : Parser PortKind} {word : Keyword}
    (known : portKind? word = some kind) (present : s.kind ≠ .eof) :
    PlacesAt P i true s (port start kind) fun _ => True := by
  have kinds : PlacesAt P i true s kind fun _ => True := by
    unfold portKind? at known
    split at known
    · cases known
      exact (PlacesAt.bump present).discard.bind fun _ _ => .pure trivial
    · cases known
      exact (PlacesAt.bump present).discard.bind fun _ _ => (places_eatKeyword _).bind fun _ _ =>
        .pure trivial
    · cases known
      exact (PlacesAt.bump present).discard.bind fun _ _ => .pure trivial
    · cases known
      exact (PlacesAt.bump present).discard.bind fun _ _ => .pure trivial
    · cases known
      exact (PlacesAt.bump present).discard.bind fun _ _ => .pure trivial
    · cases known
  exact kinds.bind fun _ _ => (places_scopedName join).bind fun _ _ => places_ident.bind fun _ _ =>
    .spanned join place fun _ _ => trivial

theorem places_plainExport (l : Level) {uses : List AnnotationUse}
    (annotations : ∀ a ∈ uses, a.Placed P) {start : Span} (place : P start) :
    Places P i true (plainExport l uses start) (Export.Placed P) := by
  intro s
  refine .kind ?_
  split
  · exact (places_attributeDecl join l uses s).bind fun _ _ => .pure trivial
  · exact (places_attributeDecl join l uses s).bind fun _ _ => .pure trivial
  · next next =>
    exact (PlacesAt.stateMember join l annotations place _ (by rw [next]; nofun)).bind
      fun _ placed => .pure placed
  · next next =>
    exact (PlacesAt.stateMember join l annotations place _ (by rw [next]; nofun)).bind
      fun _ placed => .pure placed
  · next next =>
    exact (PlacesAt.initializer join l place _ (by rw [next]; nofun)).bind fun _ _ => .pure trivial
  · next next =>
    exact (PlacesAt.initializer join l place _ (by rw [next]; nofun)).bind fun _ _ => .pure trivial
  · next next =>
    split
    · next known =>
      exact (PlacesAt.port join place known (by rw [next]; nofun)).bind fun _ _ => .pure trivial
    · exact (places_operation join l uses place s).bind fun _ _ => .pure trivial
  · exact (places_operation join l uses place s).bind fun _ _ => .pure trivial

theorem places_exportWith (l : Level) {definition : Parser (DefinitionKind Definition)}
    (kinds : ∀ i, Places P i true definition (kindPlaced P)) :
    Places P i true (exportWith l definition) (Export.Placed P) := by
  refine .here fun _ start => (places_annotations join l).seek fun _ as => .test fun _ =>
    .branch ?_ ?_
  · refine (kinds _).bind fun _ kind => (places_expect _).discard.bind fun _ _ =>
      .spanned join start fun _ _ => ?_
    rw [Export.Placed, Definition.Placed]
    exact ⟨as, kind⟩
  · exact (places_plainExport join l as start).bind fun _ placed =>
      (places_expect _).discard.bind fun _ _ => .pure placed

/-! Definitions that hold no others. -/

theorem places_structDefinition (l : Level) :
    Places P i true (structDefinition l) (kindPlaced P) := by
  refine (places_expectKeyword _).bind fun _ start => places_ident.bind fun _ name =>
    .test fun _ => .branch (.pure ?_)
      ((places_structBody join l (places_typeSpec join l) start name).bind fun _ placed => .pure ?_)
  · rwa [kindPlaced]
  · rwa [kindPlaced]

theorem places_unionDefinition (l : Level) :
    Places P i true (unionDefinition l) (kindPlaced P) := by
  refine (places_expectKeyword _).bind fun _ start => places_ident.bind fun _ name =>
    .test fun _ => .branch (.pure ?_)
      ((places_unionBody join l (places_typeSpec join l) start name).bind fun _ placed => .pure ?_)
  · rwa [kindPlaced]
  · rwa [kindPlaced]

theorem places_typedefDecl (l : Level) : Places P i true (typedefDecl l) (Typedef.Placed P) :=
  (places_expectKeyword _).discard.bind fun _ _ => (places_typeSpec join l _).bind fun _ τ =>
    (places_declarators join l).bind fun _ ds => .pure ⟨τ, ds⟩

theorem places_constDecl (l : Level) : Places P i true (constDecl l) (ConstDecl.Placed P) :=
  (places_expectKeyword _).discard.bind fun _ _ => (places_typeSpec join l _).bind fun _ τ =>
    places_ident.bind fun _ name => (places_expect _).discard.bind fun _ _ =>
    (places_constExpr join l).bind fun _ value => .pure ⟨τ, name, value⟩

theorem places_exceptionDecl (l : Level) :
    Places P i true (exceptionDecl l) (ExceptionDecl.Placed P) :=
  (places_expectKeyword _).discard.bind fun _ _ => places_ident.bind fun _ name =>
    (places_expect _).discard.bind fun _ _ =>
    (places_members join l (places_typeSpec join l)).bind fun _ fields =>
    (places_expect _).discard.bind fun _ _ => .pure ⟨name, fields⟩

theorem places_annotationMember (l : Level) :
    Places P i true (annotationMember l) fun _ => True := by
  refine (places_typeSpec join l _).bind fun _ _ => places_ident.bind fun _ _ =>
    (places_eatKeyword _).bind fun _ _ => .branch ?_ ?_
  · exact ((places_constExpr join l).free.map (R := fun _ => True)).bind fun _ _ =>
      (places_expect _).discard.bind fun _ _ => .pure trivial
  · exact (Places.pure (Q := fun _ => True) trivial).bind fun _ _ =>
      (places_expect _).discard.bind fun _ _ => .pure trivial

theorem PlacesAt.repositoryDecl (present : s.kind ≠ .eof) :
    PlacesAt P i true s repositoryDecl fun _ => True :=
  (PlacesAt.bump present).discard.bind fun _ _ => (places_scopedName join).bind fun _ _ =>
    (places_stringLiteral join).bind fun _ _ => .pure trivial

theorem places_namesAfter (word : Keyword) : Places P i i (namesAfter word) fun _ => True :=
  (places_eatKeyword _).seek fun _ _ => .branch (places_scopedNames join).keep (.pure trivial)

theorem places_nameAfterColon? : Places P i i nameAfterColon? fun _ => True :=
  (places_eat _).seek fun _ _ => .branch
    ((places_scopedName join).keep.seek fun _ _ => .pure trivial) (.pure trivial)

theorem places_valueBases : Places P i i valueBases fun _ => True :=
  (places_eat _).seek fun _ _ => .branch
    ((places_eatKeyword _).seek fun _ _ => (places_scopedNames join).keep.seek fun _ _ =>
      .pure trivial)
    (.pure trivial)

end

/-! Definitions that hold others. -/

/-- Readers of definitions and exports one level down. -/
structure InnerPlaces (P : Span → Prop) (inner : Inner) : Prop where
  definition : ∀ i, Places P i true inner.definition (Definition.Placed P)
  exportItem : ∀ i, Places P i true inner.exportItem (Export.Placed P)

section

variable (join : ∀ a b, P a → P b → P (a.join b)) {inner : Inner} (inside : InnerPlaces P inner)

include inside

theorem places_moduleDecl : Places P i true (moduleDecl inner) fun d =>
    kindPlaced P (.module d) := by
  refine (places_expectKeyword _).discard.bind fun _ _ => places_ident.bind fun _ name =>
    (places_expect _).discard.bind fun _ _ =>
    (places_bodyItems (inside.definition _)).bind fun _ all =>
    (places_expect _).discard.bind fun _ _ => .pure ?_
  rw [kindPlaced]
  exact ⟨name, (allPlaced_iff _).mpr all⟩

theorem places_exportBody : Places P i true (exportBody inner) (exportsPlaced P) :=
  (places_expect _).discard.bind fun _ _ => (places_bodyItems (inside.exportItem _)).bind
    fun _ all => (places_expect _).discard.bind fun _ _ => .pure ((exportsPlaced_iff _).mpr all)

include join

theorem places_interface (qualifier : Option Qualifier) :
    Places P i true (interface inner qualifier) (kindPlaced P) := by
  refine (places_expectKeyword _).discard.bind fun _ _ => places_ident.bind fun _ name =>
    .test fun _ => .branch (.pure (by rwa [kindPlaced])) ?_
  refine (places_eat _).bind fun _ _ => .branch ?_ ?_
  · refine (places_scopedNames join).bind fun _ _ => (places_exportBody inside).bind fun _ body =>
      .pure ?_
    rw [kindPlaced]
    exact ⟨name, body⟩
  · refine (Places.pure (Q := fun _ => True) trivial).bind fun _ _ =>
      (places_exportBody inside).bind fun _ body => .pure ?_
    rw [kindPlaced]
    exact ⟨name, body⟩

theorem places_valueBody {name : Ident} (named : name.Placed P) (qualifier : Option Qualifier) :
    Places P i true (valueBody inner name qualifier) fun v =>
      v.name.Placed P ∧ exportsPlaced P v.body :=
  (places_valueBases join).seek fun _ _ => (places_namesAfter join _).seek fun _ _ =>
    (places_exportBody inside).bind fun _ body => .pure ⟨named, body⟩

theorem PlacesAt.valueType (l : Level) (qualifier : Option Qualifier) (present : s.kind ≠ .eof) :
    PlacesAt P i true s (valueType l inner qualifier) (kindPlaced P) := by
  refine (PlacesAt.bump present).discard.bind fun _ _ => places_ident.bind fun _ name =>
    .test fun _ => .branch (.pure (by rwa [kindPlaced])) (.test fun _ => .branch ?_
      (.branch .failed ?_))
  · refine (places_valueBody join inside name _).bind fun v placed => .pure ?_
    rwa [kindPlaced]
  · refine (places_typeSpec join l _).bind fun _ τ => .pure ?_
    rw [kindPlaced]
    exact ⟨name, τ⟩

theorem PlacesAt.eventType (qualifier : Option Qualifier) (present : s.kind ≠ .eof) :
    PlacesAt P i true s (eventType inner qualifier) (kindPlaced P) := by
  refine (PlacesAt.bump present).discard.bind fun _ _ => places_ident.bind fun _ name =>
    .test fun _ => .branch (.pure (by rwa [kindPlaced])) (.test fun _ => .branch ?_ (.expected _))
  refine (places_valueBody join inside name _).bind fun v placed => .pure ?_
  rwa [kindPlaced]

theorem places_component : Places P i true (component inner) (kindPlaced P) := by
  refine (places_expectKeyword _).discard.bind fun _ _ => places_ident.bind fun _ name =>
    .test fun _ => .branch (.pure (by rwa [kindPlaced])) ?_
  refine (places_nameAfterColon? join).bind fun _ _ => (places_namesAfter join _).bind fun _ _ =>
    (places_exportBody inside).bind fun _ body => .pure ?_
  rw [kindPlaced]
  exact ⟨name, body⟩

theorem places_home : Places P i true (home inner) (kindPlaced P) := by
  refine (places_expectKeyword _).discard.bind fun _ _ => places_ident.bind fun _ name =>
    (places_nameAfterColon? join).bind fun _ _ => (places_namesAfter join _).bind fun _ _ =>
    (places_expectKeyword _).discard.bind fun _ _ => (places_scopedName join).bind fun _ _ =>
    (places_eatKeyword _).bind fun _ _ => .branch ?_ ?_
  · refine ((places_scopedName join).free.map (R := fun _ => True)).bind fun _ _ =>
      (places_exportBody inside).bind fun _ body => .pure ?_
    rw [kindPlaced]
    exact ⟨name, body⟩
  · refine (Places.pure (Q := fun _ => True) trivial).bind fun _ _ =>
      (places_exportBody inside).bind fun _ body => .pure ?_
    rw [kindPlaced]
    exact ⟨name, body⟩

variable (l : Level)

theorem PlacesAt.qualified (qualifier : Qualifier) (present : s.kind ≠ .eof) :
    PlacesAt P i true s (qualified l inner qualifier) (kindPlaced P) := by
  refine (PlacesAt.bump present).discard.bind fun _ _ s => .kind ?_
  split
  · exact places_interface join inside _ s
  · exact places_interface join inside _ s
  · next next => exact .valueType join inside l _ (by rw [next]; decide)
  · next next => exact .valueType join inside l _ (by rw [next]; decide)
  · next next => exact .eventType join inside _ (by rw [next]; decide)
  · next next => exact .eventType join inside _ (by rw [next]; decide)
  · exact .expected _
  · exact .expected _

theorem places_annotationDecl : Places P i true (annotationDecl l inner) fun _ => True := by
  have item : Places P true true (annotationItem l inner) fun _ => True :=
    .test fun _ => .branch ((inside.definition _).bind fun _ _ => .pure trivial)
      ((places_annotationMember join l).bind fun _ _ => .pure trivial)
  exact (places_expect _).discard.bind fun _ _ => places_ident.discard.bind fun _ _ =>
    places_ident.bind fun _ _ => (places_expect _).discard.bind fun _ _ =>
    (places_many _ item).bind fun _ _ => (places_expect _).discard.bind fun _ _ => .pure trivial

theorem places_definitionKind (i : Bool) :
    Places P i true (definitionKind l inner) (kindPlaced P) := by
  intro s
  refine .kind ?_
  split
  · next next =>
    have present : s.kind ≠ .eof := by rw [next]; nofun
    split
    · exact (places_moduleDecl inside s).bind fun _ placed => .pure placed
    · exact places_structDefinition join l s
    · exact places_unionDefinition join l s
    · exact (places_enumType join l s).bind fun _ placed => .pure (by rwa [kindPlaced])
    · exact (places_bitsetType join l s).bind fun _ placed => .pure (by rwa [kindPlaced])
    · exact (places_bitmaskType join l s).bind fun _ placed => .pure (by rwa [kindPlaced])
    · exact (places_typedefDecl join l s).bind fun _ placed => .pure (by rwa [kindPlaced])
    · exact (PlacesAt.bump present).discard.bind fun _ _ => places_ident.bind fun _ name =>
        .pure (by rwa [kindPlaced])
    · exact (places_constDecl join l s).bind fun _ placed => .pure (by rwa [kindPlaced])
    · exact (places_exceptionDecl join l s).bind fun _ placed => .pure (by rwa [kindPlaced])
    · exact places_interface join inside _ s
    · exact .valueType join inside l _ present
    · exact .eventType join inside _ present
    · exact places_component join inside s
    · exact places_home join inside s
    · exact (PlacesAt.repositoryDecl join present).bind fun _ _ =>
        .pure (by rw [kindPlaced]; trivial)
    · exact (PlacesAt.repositoryDecl join present).bind fun _ _ =>
        .pure (by rw [kindPlaced]; trivial)
    · exact .qualified join inside l _ present
    · exact .qualified join inside l _ present
    · exact .qualified join inside l _ present
    · exact .expected _
  · refine .test ?_
    split
    · exact (places_annotationDecl join inside l s).bind fun _ _ =>
        .pure (by rw [kindPlaced]; trivial)
    · exact .expected _

theorem places_definitionWith (i : Bool) :
    Places P i true (definitionWith l inner) (Definition.Placed P) := by
  refine .here fun _ start => (places_annotations join l).seek fun _ as =>
    (places_definitionKind join inside l _).bind fun _ kind =>
    (places_expect _).discard.bind fun _ _ => .spanned join start fun _ _ => ?_
  rw [Definition.Placed]
  exact ⟨as, kind⟩

end

section

variable (join : ∀ a b, P a → P b → P (a.join b))

include join

theorem innerPlaces_at (limit left : Nat) :
    InnerPlaces P ⟨definitionAt limit left, exportAt limit left⟩ := by
  induction left with
  | zero => exact ⟨fun _ => .tooDeep _, fun _ => .tooDeep _⟩
  | succ left ih =>
    exact ⟨places_definitionWith join ih _, fun _ =>
      places_exportWith join _ (places_definitionKind join ih _)⟩

/-! Units. -/

theorem places_importDecl : Places P i true importDecl fun _ => True := by
  refine (places_expectKeyword _).bind fun _ start => .test fun _ => .branch ?_ ?_
  · exact ((places_stringLiteral join).map (R := fun _ => True)).bind fun _ _ =>
      (places_expect _).discard.bind fun _ _ => .spanned join start fun _ _ => trivial
  · exact ((places_scopedName join).free.map (R := fun _ => True)).bind fun _ _ =>
      (places_expect _).discard.bind fun _ _ => .spanned join start fun _ _ => trivial

theorem good_imports (s : Cursor) (good : Good P false s) : Good P false (imports s).2 := by
  fun_induction imports s with
  | case1 s next i t read shorter more u rest ih =>
    have yields := (places_importDecl join).keep s good
    rw [read] at yields
    cases yields with
    | ok _ good =>
      rw [rest] at ih
      exact ih good
  | case2 s next i t read longer =>
    have yields := (places_importDecl join).keep s good
    rw [read] at yields
    cases yields with
    | ok _ good => exact good
  | case3 s next e failed read t shorter ih =>
    have yields := places_importDecl join s good
    rw [read] at yields
    cases yields with
    | error place good => exact ih ((good.report place).recover 0)
  | case4 s next e failed read t longer =>
    have yields := places_importDecl join s good
    rw [read] at yields
    cases yields with
    | error place good => exact (good.report place).recover 0
  | case5 s other => exact good

/-- A unit has good places if its tokens do and the end of the text does, and so have the errors
of reading it. -/
theorem placed_parseTokens (limit : Nat) {tokens : List Token}
    (all : ∀ t ∈ tokens, P t.span) (ending : P (Cursor.ofTokens tokens).ending) :
    allPlaced P (parseTokens limit tokens).specification.definitions ∧
      ∀ e ∈ (parseTokens limit tokens).errors, P e.span := by
  have start : Good P false (Cursor.ofTokens tokens) :=
    ⟨fun t mem => all t (List.mem_filter.mp mem).1, ending,
      List.forall_mem_nil _, nofun⟩
  have front := good_imports join _ start
  rw [parseTokens]
  generalize imports (Cursor.ofTokens tokens) = read at front ⊢
  obtain ⟨is, s⟩ := read
  obtain ⟨placed, good⟩ := good_itemList (·.atEnd)
    ((innerPlaces_at join limit limit).definition false).keep s front
  exact ⟨(allPlaced_iff _).mpr placed, good.errors⟩

end

end Idl.Grammar
