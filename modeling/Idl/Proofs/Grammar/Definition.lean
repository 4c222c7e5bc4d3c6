import Idl.Grammar.Definition
import Idl.Proofs.Grammar.Export

/-!
Definitions and units are read as the grammar forms them, and what they declare stands at tokens
that were taken, each at its own. Main statements: `readsAt_definitionAt` and `found_parseTokens`.
-/

set_option autoImplicit false

namespace Idl

/-- Where all the declarations of a definition begin. -/
def Definition.places (d : Definition) : List Nat := offsets (d.declarations ++ d.hidden)

def kindPlaces (kind : DefinitionKind Definition) : List Nat :=
  offsets (kindDeclarations kind ++ kindHidden kind)

def exportPlaces : Export Definition → List Nat
  | .definition d => d.places
  | e => Grammar.plainPlaces e

theorem places_definition (as : List AnnotationUse) (kind : DefinitionKind Definition)
    (span : Span) : Definition.places ⟨as, kind, span⟩ = kindPlaces kind := by
  rw [Definition.places, Definition.declarations, Definition.hidden, kindPlaces]

theorem perm_allPlaces (ds : List Definition) :
    (offsets (allDeclarations ds ++ allHidden ds)).Perm (ds.flatMap Definition.places) := by
  induction ds with
  | nil => simp [allDeclarations, allHidden, offsets]
  | cons d ds ih =>
    rw [allDeclarations, allHidden, List.flatMap_cons, Definition.places]
    refine List.Perm.trans ?_ (ih.append_left _)
    rw [List.perm_iff_count]
    intro o
    simp only [offsets_append, List.count_append]
    omega

theorem perm_exportPlaces (es : List (Export Definition)) :
    (offsets (exportDeclarations es ++ exportHidden es)).Perm (es.flatMap exportPlaces) := by
  induction es with
  | nil => simp [exportDeclarations, exportHidden, offsets]
  | cons e es ih =>
    rw [List.flatMap_cons]
    refine List.Perm.trans ?_ (ih.append_left _)
    rw [List.perm_iff_count]
    intro o
    cases e with
    | definition d =>
      rw [exportDeclarations, exportHidden, exportPlaces, Definition.places]
      simp only [offsets_append, List.count_append]
      omega
    | stateMember m =>
      rw [exportDeclarations, exportHidden, exportPlaces, Grammar.plainPlaces]
      · simp only [offsets_append, List.count_append]
        omega
      · simp
    | _ => simp [exportDeclarations, exportHidden, exportPlaces, Grammar.plainPlaces]

namespace Grammar

/-- A formed definition, without its annotations, that declares its names at the offsets. -/
abbrev FoundKind (kind : DefinitionKind Definition) (o : List Nat) : Prop :=
  Found (kindFormed kind) (kindPlaces kind) o

/-- A definition that may also stand where exports do. -/
abbrev FoundInner (kind : DefinitionKind Definition) (o : List Nat) : Prop :=
  FoundKind kind o ∧ kind.isInner = true

/-- A formed definition. One that began with the word of a definition has no annotations. -/
def FoundDefinition (s : Cursor) (d : Definition) (o : List Nat) : Prop :=
  Found d.Formed d.places o ∧
    (startsInnerDefinition s = true → d.annotations = [] ∧ d.kind.isInner = true)

abbrev FoundExport (e : Export Definition) (o : List Nat) : Prop :=
  Found e.Formed (exportPlaces e) o

variable (l : Level)

/-! Definitions without bodies of their own. -/

theorem foundKind_of (ds : List Declaration) {kind : DefinitionKind Definition} {holds : Prop}
    {o : List Nat} (found : Found holds (offsets ds) o) (formed : holds → kindFormed kind)
    (declares : kindDeclarations kind = ds) (hides : kindHidden kind = []) : FoundKind kind o := by
  refine ⟨formed found.good, ?_⟩
  rw [kindPlaces, declares, hides, List.append_nil]
  exact found.places

theorem reads_structDefinition : Reads (structDefinition l) FoundInner := by
  intro s
  refine (reads_expectKeyword _ s).bind fun _ t _ _ => (finds_ident t).bind fun name u _ found =>
    ReadsAt.test ?_
  split
  · refine ReadsAt.pure ⟨foundKind_of [⟨name, .announced .struct⟩] ?_
      (fun formed => ⟨formed, by simp [ForwardKind.qualifiers]⟩) rfl rfl, rfl⟩
    exact (found.keep _).skip _
  · refine (reads_structBody l (reads_typeSpec l) _ name u).bind fun _ _ _ body => ReadsAt.pure ?_
    have struct := Found.named found.places (body found.good)
    rw [List.append_nil]
    exact ⟨foundKind_of _ (struct.skip _) id rfl rfl, rfl⟩

theorem reads_unionDefinition : Reads (unionDefinition l) FoundInner := by
  intro s
  refine (reads_expectKeyword _ s).bind fun _ t _ _ => (finds_ident t).bind fun name u _ found =>
    ReadsAt.test ?_
  split
  · refine ReadsAt.pure ⟨foundKind_of [⟨name, .announced .union⟩] ?_
      (fun formed => ⟨formed, by simp [ForwardKind.qualifiers]⟩) rfl rfl, rfl⟩
    exact (found.keep _).skip _
  · refine (reads_unionBody l (reads_typeSpec l) _ name u).bind fun _ _ _ body => ReadsAt.pure ?_
    have union := Found.named found.places (body found.good)
    rw [List.append_nil]
    exact ⟨foundKind_of _ (union.skip _) id rfl rfl, rfl⟩

theorem finds_typedefDecl :
    Finds (typedefDecl l) Typedef.Formed fun d => offsets d.declarations := by
  intro s
  refine ((reads_expectKeyword _).discard s).bind fun _ t _ _ => (reads_typeSpec l t).bind
    fun τ u _ type => (finds_declarators l u).bind fun ds _ _ names => ReadsAt.pure ?_
  refine ⟨⟨type.good, names.good.1, names.good.2⟩, ?_⟩
  have listed : offsets (ds.map fun d => ⟨d.name, .defined .typedef⟩) =
      ds.flatMap fun d => [d.name.span.offset] := by
    rw [← List.map_eq_flatMap, offsets, List.map_map]
    rfl
  dsimp only
  rw [Typedef.declarations, offsets_append, listed]
  exact skip_subperm _ (type.places.append (keep_subperm names.places _))

/-- The type of a constant declares names too, which define nothing. -/
theorem finds_constDecl : Finds (constDecl l) ConstDecl.Formed
    fun d => offsets (⟨d.name, .defined .const⟩ :: d.type.declarations) := by
  intro s
  refine ((reads_expectKeyword _).discard s).bind fun _ t _ _ => (reads_typeSpec l t).bind
    fun τ u _ type => (finds_ident u).bind fun name v _ found => ((reads_expect _).discard v).bind
    fun _ w _ _ => (forms_constExpr l w).bind fun _ _ _ value => ReadsAt.pure ?_
  refine ⟨⟨type.good, found.good, value⟩, skip_subperm _ ?_⟩
  refine List.Subperm.trans ?_ (type.places.append (keep_subperm found.places _))
  exact (List.perm_append_comm : List.Perm ([name.span.offset] ++ _) _).subperm

theorem finds_exceptionDecl : Finds (exceptionDecl l) ExceptionDecl.Formed
    fun d => offsets (⟨d.name, .defined .exception⟩ :: memberDeclarations d.members) := by
  intro s
  refine ((reads_expectKeyword _).discard s).bind fun _ t _ _ => (finds_ident t).bind
    fun name u _ found => ((reads_expect _).discard u).bind fun _ v _ _ =>
    (finds_members l (reads_typeSpec l) v).bind fun ms w _ members =>
    ((reads_expect _).discard w).bind fun _ _ _ _ => ReadsAt.pure ?_
  refine ⟨⟨found.good, (membersFormed_iff ms).mp members.good⟩, skip_subperm _ ?_⟩
  exact found.places.append (skip_subperm _ (keep_subperm members.places _))

theorem forms_repositoryDecl : Forms repositoryDecl fun d => d.target.Formed := fun s =>
  (reads_bump.discard s).bind fun _ t _ _ => (forms_scopedName t).bind fun _ u _ target =>
    (reads_stringLiteral u).bind fun _ _ _ _ => ReadsAt.pure target

/-- A member of an annotation that does not begin like a definition. -/
theorem readsAt_annotationMember {s : Cursor} (plain : startsInnerDefinition s = false) :
    ReadsAt s (annotationMember l) fun m _ => m.Formed := by
  refine (readsAt_typeSpec l s).bind fun τ t _ type => (forms_ident t).bind fun name u _ named =>
    (reads_eatKeyword _ u).bind fun _ v _ _ => ?_
  have first : τ.isConstructed = false := by
    by_contra constructed
    have starts := type.2 (Bool.not_eq_false _ ▸ constructed)
    rw [plain] at starts
    cases starts
  have rest (w : Cursor) {default : Option ConstExpr} (valued : ∀ e ∈ default, e.Formed) :
      ReadsAt w (do
        discard (expect .semi)
        return (⟨τ, name, default⟩ : AnnotationMember)) fun m _ => m.Formed :=
    ((reads_expect _).discard w).bind fun _ _ _ _ =>
      ReadsAt.pure ⟨type.1.good, first, named, valued⟩
  dsimp only
  split
  · refine ReadsAt.bind (P := fun default _ => ∀ e ∈ default, ConstExpr.Formed e)
      (ReadsAt.map ((forms_constExpr l v).weaken fun e _ formed => ?_)) fun _ w _ valued =>
      rest w valued
    intro other mem
    cases mem
    exact formed
  · exact rest v fun e mem => by cases mem

/-- What a definition is. One that begins with the word of a definition may also stand where
exports do. -/
def FoundWhat (s : Cursor) (kind : DefinitionKind Definition) (o : List Nat) : Prop :=
  FoundKind kind o ∧ (startsInnerDefinition s = true → kind.isInner = true)

/-- The definition began with another word. -/
theorem FoundWhat.outer {s : Cursor} {p : Parser (DefinitionKind Definition)}
    (reads : Reads p FoundKind) (plain : startsInnerDefinition s = false) :
    ReadsAt s p (FoundWhat s) :=
  (reads s).weaken fun _ _ found => ⟨found, fun starts => by rw [plain] at starts; cases starts⟩

/-- No annotation stands where a definition begins with its word. -/
theorem readsAt_annotations (s : Cursor) : ReadsAt s (annotations l) fun as o =>
    (∀ a ∈ as, a.Formed) ∧ (startsInnerDefinition s = true → as = [] ∧ o = []) := by
  cases starts : startsInnerDefinition s with
  | false =>
    exact (forms_annotations l s).weaken fun _ _ formed =>
      ⟨formed, fun starts => (by cases starts)⟩
  | true =>
    have next : s.at? .atSign = false := by
      rw [startsInnerDefinition] at starts
      split at starts
      · next word next =>
        rw [Cursor.at?, next]
        rfl
      · cases starts
    intro _
    rw [annotations, many, if_pos (by rw [next]; rfl)]
    exact ⟨[], rfl, by simp, fun _ => ⟨rfl, rfl⟩⟩

/-! Definitions that hold others, over readers one level down. -/

/-- Definitions and exports are found one level down. -/
structure FindsInner (inner : Inner) : Prop where
  definitions : ∀ s, ReadsAt s inner.definition (FoundDefinition s)
  exports : Reads inner.exportItem FoundExport

section

variable {inner : Inner} (inners : FindsInner inner)

include inners

theorem finds_definition : Finds inner.definition Definition.Formed Definition.places :=
  fun s => (inners.definitions s).weaken fun _ _ found => found.1

theorem reads_moduleDecl : Reads (moduleDecl inner) fun d o => FoundKind (.module d) o := by
  intro s
  refine ((reads_expectKeyword _).discard s).bind fun _ t _ _ => (finds_ident t).bind
    fun name u _ found => ((reads_expect _).discard u).bind fun _ v _ _ =>
    (finds_bodyItems (finds_definition inners) v).bind fun ds w _ members =>
    ((reads_expect _).discard w).bind fun _ _ _ _ => ReadsAt.pure ?_
  refine ⟨⟨found.good, (allFormed_iff ds).mpr members.good⟩, skip_subperm _ ?_⟩
  have places := (perm_allPlaces ds).subperm.trans members.places
  exact found.places.append (skip_subperm _ (keep_subperm places _))

/-- The exports of a body, with what they declare. -/
abbrev FoundBody (body : List (Export Definition)) (o : List Nat) : Prop :=
  Found (exportsFormed body) (offsets (exportDeclarations body ++ exportHidden body)) o

theorem reads_exportBody : Reads (exportBody inner) FoundBody := by
  intro s
  refine ((reads_expect _).discard s).bind fun _ t _ _ =>
    (finds_bodyItems inners.exports t).bind fun es u _ found =>
    ((reads_expect _).discard u).bind fun _ _ _ _ => ReadsAt.pure ?_
  have places := (perm_exportPlaces es).subperm.trans found.places
  exact ⟨(exportsFormed_iff es).mpr found.good, skip_subperm _ (keep_subperm places _)⟩

/-- What makes a definition of a body, where its name stands among what was taken before. -/
theorem readsAt_body (make : List (Export Definition) → DefinitionKind Definition) {name : Ident}
    {before : List Nat} (first : [name.span.offset].Subperm before)
    (formed : ∀ body, exportsFormed body → kindFormed (make body))
    (places : ∀ body, kindPlaces (make body) =
      name.span.offset :: offsets (exportDeclarations body ++ exportHidden body)) (s : Cursor) :
    ReadsAt s (do return make (← exportBody inner)) fun kind o => FoundKind kind (before ++ o) :=
  (reads_exportBody inners s).bind fun body _ o found => ReadsAt.pure (by
    refine ⟨formed body found.good, ?_⟩
    rw [places, List.append_nil]
    exact first.append found.places)

end

theorem forms_namesAfter (word : Keyword) :
    Forms (namesAfter word) fun ns => ∀ n ∈ ns, n.Formed := by
  intro s
  refine (reads_eatKeyword _ s).bind fun _ t _ _ => ?_
  split
  · exact (forms_scopedNames t).weaken fun _ _ names => names.2
  · exact ReadsAt.pure fun n mem => by cases mem

theorem forms_nameAfterColon? : Forms nameAfterColon? fun n => ∀ name ∈ n, name.Formed := by
  intro s
  refine (reads_eat _ s).bind fun _ t _ _ => ?_
  split
  · refine (forms_scopedName t).bind fun _ _ _ formed => ReadsAt.pure fun name mem => ?_
    cases mem
    exact formed
  · exact ReadsAt.pure fun name mem => by cases mem

theorem forms_valueBases : Forms valueBases
    fun b => (b.1 = true → b.2 ≠ []) ∧ ∀ n ∈ b.2, n.Formed := by
  intro s
  refine (reads_eat _ s).bind fun _ t _ _ => ?_
  split
  · exact (reads_eatKeyword _ t).bind fun _ u _ _ => (forms_scopedNames u).bind fun _ _ _ names =>
      ReadsAt.pure ⟨fun _ => names.1, names.2⟩
  · exact ReadsAt.pure ⟨fun truncatable => (by cases truncatable), fun n mem => by cases mem⟩

section

variable {inner : Inner} (inners : FindsInner inner)

include inners

theorem reads_interface {q : Option Qualifier} (known : q ∈ ForwardKind.interface.qualifiers) :
    Reads (interface inner q) FoundKind := by
  intro s
  refine ((reads_expectKeyword _).discard s).bind fun _ t _ _ => (finds_ident t).bind
    fun name u _ found => ReadsAt.test ?_
  split
  · refine ReadsAt.pure (foundKind_of [⟨name, .announced .interface⟩] ?_
      (fun formed => ⟨formed, known⟩) rfl rfl)
    exact (found.keep _).skip _
  · have rest (v : Cursor) (o : List Nat) {bases : List ScopedName}
        (names : ∀ n ∈ bases, n.Formed) :=
      readsAt_body inners (fun body => .interface ⟨name, q, bases, body⟩)
        (keep_subperm found.places o) (fun _ formed => ⟨found.good, known, names, formed⟩)
        (fun _ => rfl) v
    refine (reads_eat _ u).bind fun _ v o _ => ?_
    dsimp only
    split
    · refine (forms_scopedNames v).bind fun bases w o' names => (rest w (o ++ o') names.2).weaken
        fun _ _ found => ?_
      simp only [List.append_assoc] at found
      exact found.skip _
    · refine (rest v o fun n mem => by cases mem).weaken fun _ _ found => ?_
      simp only [List.append_assoc] at found
      exact found.skip _

/-- A value or event type with its body: what stands before the body is formed. -/
theorem reads_valueBody {name : Ident} (formed : name.Formed) {q : Option Qualifier}
    (known : q ∈ ForwardKind.value.qualifiers) :
    Reads (valueBody inner name q) fun v o =>
      v.name = name ∧ ValueType.Headed { v with body := [] } ∧ FoundBody v.body o := by
  intro s
  refine (forms_valueBases s).bind fun ⟨truncatable, bases⟩ t _ names => ?_
  refine (forms_namesAfter _ t).bind fun supports u _ supported => (reads_exportBody inners u).bind
    fun body _ o found => ReadsAt.pure ⟨rfl, ⟨formed, known, names.1, names.2, supported⟩, ?_⟩
  rw [List.append_nil]
  exact (found.skip _).skip _

/-- What makes a definition of a value or event type. -/
theorem readsAt_valueBody (make : ValueType Definition → DefinitionKind Definition) {name : Ident}
    (formed : name.Formed) {q : Option Qualifier} (known : q ∈ ForwardKind.value.qualifiers)
    {before : List Nat} (first : [name.span.offset].Subperm before)
    (kinds : ∀ v, ValueType.Headed { v with body := [] } → exportsFormed v.body →
      kindFormed (make v))
    (places : ∀ v, kindPlaces (make v) =
      v.name.span.offset :: offsets (exportDeclarations v.body ++ exportHidden v.body))
    (s : Cursor) :
    ReadsAt s (do return make (← valueBody inner name q))
      fun kind o => FoundKind kind (before ++ o) :=
  (reads_valueBody inners formed known s).bind fun v _ o found => ReadsAt.pure (by
    obtain ⟨same, headed, body⟩ := found
    refine ⟨kinds v headed body.good, ?_⟩
    rw [places, same, List.append_nil]
    exact first.append body.places)

theorem reads_valueType {q : Option Qualifier} (known : q ∈ ForwardKind.value.qualifiers) :
    Reads (valueType l inner q) FoundKind := by
  intro s
  refine (reads_bump.discard s).bind fun _ t _ _ => (finds_ident t).bind
    fun name u o found => ReadsAt.test ?_
  dsimp only
  split
  · refine ReadsAt.pure (foundKind_of [⟨name, .announced .value⟩] ?_
      (fun formed => ⟨formed, known⟩) rfl rfl)
    exact (found.keep _).skip _
  · refine ReadsAt.test ?_
    split
    · refine (readsAt_valueBody inners .value found.good known found.places
        (fun _ headed formed => ⟨headed, formed⟩) (fun _ => rfl) u).weaken fun _ _ found => ?_
      exact found.skip _
    · split
      · exact ReadsAt.failed
      · refine (reads_typeSpec l u).bind fun τ _ _ type => ReadsAt.pure
          ⟨⟨found.good, type.good⟩, ?_⟩
        exact skip_subperm _ (found.places.append (keep_subperm type.places _))

theorem reads_eventType {q : Option Qualifier} (known : q ∈ ForwardKind.value.qualifiers) :
    Reads (eventType inner q) FoundKind := by
  intro s
  refine (reads_bump.discard s).bind fun _ t _ _ => (finds_ident t).bind
    fun name u o found => ReadsAt.test ?_
  split
  · refine ReadsAt.pure (foundKind_of [⟨name, .announced .event⟩] ?_
      (fun formed => ⟨formed, known⟩) rfl rfl)
    exact (found.keep _).skip _
  · refine ReadsAt.test ?_
    split
    · refine (readsAt_valueBody inners .event found.good known found.places
        (fun _ headed formed => ⟨headed, formed⟩) (fun _ => rfl) u).weaken fun _ _ found => ?_
      exact found.skip _
    · exact ReadsAt.expected _

theorem reads_component : Reads (component inner) FoundKind := by
  intro s
  refine ((reads_expectKeyword _).discard s).bind fun _ t _ _ => (finds_ident t).bind
    fun name u _ found => ReadsAt.test ?_
  split
  · refine ReadsAt.pure (foundKind_of [⟨name, .announced .component⟩] ?_
      (fun formed => ⟨formed, by simp [ForwardKind.qualifiers]⟩) rfl rfl)
    exact (found.keep _).skip _
  · refine (forms_nameAfterColon? u).bind fun base v o based => (forms_namesAfter _ v).bind
      fun supports w o' supported => (readsAt_body inners
        (fun body => .component ⟨name, base, supports, body⟩)
        (keep_subperm (keep_subperm found.places o) o')
        (fun _ formed => ⟨⟨found.good, based, supported⟩, formed⟩) (fun _ => rfl) w).weaken
      fun _ _ found => ?_
    simp only [List.append_assoc] at found
    exact found.skip _

theorem reads_home : Reads (home inner) FoundKind := by
  intro s
  refine ((reads_expectKeyword _).discard s).bind fun _ t _ _ => (finds_ident t).bind
    fun name u o found => (forms_nameAfterColon? u).bind fun base v o₁ based =>
    (forms_namesAfter _ v).bind fun supports w o₂ supported =>
    ((reads_expectKeyword _).discard w).bind fun _ x o₃ _ => (forms_scopedName x).bind
    fun manages y o₄ managed => (reads_eatKeyword _ y).bind fun _ z o₅ _ => ?_
  have rest (c : Cursor) (o₆ : List Nat) {key : Option ScopedName} (keyed : ∀ n ∈ key, n.Formed) :=
    readsAt_body inners (fun body => .home ⟨name, base, supports, manages, key, body⟩)
      (keep_subperm found.places (o₁ ++ (o₂ ++ (o₃ ++ (o₄ ++ (o₅ ++ o₆))))))
      (fun _ formed => ⟨⟨found.good, based, supported, managed, keyed⟩, formed⟩) (fun _ => rfl) c
  dsimp only
  split
  · refine ReadsAt.bind (P := fun key _ => ∀ n ∈ key, ScopedName.Formed n)
      (ReadsAt.map ((forms_scopedName z).weaken fun n _ formed => ?_)) fun key c o₆ keyed =>
      (rest c o₆ keyed).weaken fun _ _ found => ?_
    · intro other mem
      cases mem
      exact formed
    · simp only [List.append_assoc] at found
      exact found.skip _
  · refine (rest z [] fun n mem => by cases mem).weaken fun _ _ found => ?_
    simp only [List.append_assoc, List.nil_append] at found
    exact found.skip _

theorem reads_qualified (q : Qualifier) : Reads (qualified l inner q) FoundKind := by
  intro s
  refine (reads_bump.discard s).bind fun _ t _ _ => ReadsAt.kind ?_
  split
  · exact (reads_interface inners (by decide) t).weaken fun _ _ found => found.skip _
  · exact (reads_interface inners (by decide) t).weaken fun _ _ found => found.skip _
  · exact (reads_valueType l inners (by decide) t).weaken fun _ _ found => found.skip _
  · exact (reads_valueType l inners (by decide) t).weaken fun _ _ found => found.skip _
  · exact (reads_eventType inners (by decide) t).weaken fun _ _ found => found.skip _
  · exact (reads_eventType inners (by decide) t).weaken fun _ _ found => found.skip _
  · exact ReadsAt.expected _
  · exact ReadsAt.expected _

/-- Members and definitions of an annotation. -/
def ItemFormed : AnnotationMember ⊕ Definition → Prop
  | .inl m => m.Formed
  | .inr d => d.Formed ∧ d.annotations = [] ∧ d.kind.isInner = true

theorem forms_annotationItem : Forms (annotationItem l inner) ItemFormed := by
  intro s
  refine ReadsAt.test ?_
  split
  · next starts =>
    exact (inners.definitions s).bind fun d _ _ found =>
      ReadsAt.pure ⟨found.1.good, found.2 starts⟩
  · next plain =>
    exact (readsAt_annotationMember l (Bool.eq_false_iff.mpr plain)).bind fun _ _ _ formed =>
      ReadsAt.pure formed

/-- An annotation declares nothing. -/
theorem reads_annotationDecl :
    Forms (annotationDecl l inner) fun d => kindFormed (.annotationDecl d) := by
  intro s
  refine ((reads_expect _).discard s).bind fun _ t _ _ => (forms_ident.discard t).bind
    fun _ u _ _ => (forms_ident u).bind fun _ v _ name => ((reads_expect _).discard v).bind
    fun _ w _ _ => (forms_many _ (forms_annotationItem l inners) w).bind fun items x _ formed =>
    ((reads_expect _).discard x).bind fun _ _ _ _ => ReadsAt.pure ?_
  have member (m : AnnotationMember) (mem : m ∈ items.filterMap Sum.getLeft?) : m.Formed := by
    obtain ⟨item, inside, eq⟩ := List.mem_filterMap.mp mem
    have found := formed item inside
    rw [Sum.getLeft?_eq_some_iff.mp eq] at found
    exact found
  have definition (d : Definition) (mem : d ∈ items.filterMap Sum.getRight?) :
      d.Formed ∧ d.annotations = [] ∧ d.kind.isInner = true := by
    obtain ⟨item, inside, eq⟩ := List.mem_filterMap.mp mem
    have found := formed item inside
    rw [Sum.getRight?_eq_some_iff.mp eq] at found
    exact found
  exact ⟨⟨name, member, fun d mem => (definition d mem).2⟩,
    (allFormed_iff _).mpr fun d mem => (definition d mem).1⟩

/-! Definitions. -/

theorem readsAt_definitionKind (s : Cursor) :
    ReadsAt s (definitionKind l inner) (FoundWhat s) := by
  have inside {p : Parser (DefinitionKind Definition)} (reads : Reads p FoundInner) :
      ReadsAt s p (FoundWhat s) := (reads s).weaken fun _ _ found => ⟨found.1, fun _ => found.2⟩
  -- the word that is next decides whether the definition may stand where exports do
  have outside {word : Keyword} (next : s.kind = .keyword word) (plain : word ∉ [Keyword.struct,
      .union, .enum, .bitset, .bitmask, .typeDef, .native, .const, .exception, .typeId,
      .typePrefix]) : startsInnerDefinition s = false := by
    rw [startsInnerDefinition, next]
    exact decide_eq_false plain
  refine ReadsAt.kind ?_
  split
  · next word next =>
    split
    · refine FoundWhat.outer (fun t => ?_) (outside next (by decide))
      exact (reads_moduleDecl inners t).bind fun _ _ _ found => ReadsAt.pure (found.keep _)
    · exact inside (reads_structDefinition l)
    · exact inside (reads_unionDefinition l)
    · exact inside fun t => (finds_enumType l t).bind fun _ _ _ found =>
        ReadsAt.pure ⟨foundKind_of _ (found.keep _) id rfl rfl, rfl⟩
    · exact inside fun t => (finds_bitsetType l t).bind fun _ _ _ found =>
        ReadsAt.pure ⟨foundKind_of _ (found.keep _) id rfl rfl, rfl⟩
    · exact inside fun t => (finds_bitmaskType l t).bind fun _ _ _ found =>
        ReadsAt.pure ⟨foundKind_of _ (found.keep _) id rfl rfl, rfl⟩
    · exact inside fun t => (finds_typedefDecl l t).bind fun _ _ _ found =>
        ReadsAt.pure ⟨foundKind_of _ (found.keep _) id rfl rfl, rfl⟩
    · refine inside fun t => (reads_bump.discard t).bind fun _ u _ _ => (finds_ident u).bind
        fun name _ _ found => ReadsAt.pure
        ⟨foundKind_of [⟨name, .defined .native⟩] ?_ id rfl rfl, rfl⟩
      exact (found.keep _).skip _
    · exact inside fun t => (finds_constDecl l t).bind fun _ _ _ found =>
        ReadsAt.pure ⟨found.keep _, rfl⟩
    · exact inside fun t => (finds_exceptionDecl l t).bind fun _ _ _ found =>
        ReadsAt.pure ⟨foundKind_of _ (found.keep _) id rfl rfl, rfl⟩
    · exact FoundWhat.outer (reads_interface inners (by decide)) (outside next (by decide))
    · exact FoundWhat.outer (reads_valueType l inners (by decide)) (outside next (by decide))
    · exact FoundWhat.outer (reads_eventType inners (by decide)) (outside next (by decide))
    · exact FoundWhat.outer (reads_component inners) (outside next (by decide))
    · exact FoundWhat.outer (reads_home inners) (outside next (by decide))
    · exact inside fun t => (forms_repositoryDecl t).bind fun _ _ _ formed =>
        ReadsAt.pure ⟨⟨formed, List.nil_subperm⟩, rfl⟩
    · exact inside fun t => (forms_repositoryDecl t).bind fun _ _ _ formed =>
        ReadsAt.pure ⟨⟨formed, List.nil_subperm⟩, rfl⟩
    · exact FoundWhat.outer (reads_qualified l inners _) (outside next (by decide))
    · exact FoundWhat.outer (reads_qualified l inners _) (outside next (by decide))
    · exact FoundWhat.outer (reads_qualified l inners _) (outside next (by decide))
    · exact ReadsAt.expected _
  · next other =>
    have plain : startsInnerDefinition s = false := by
      rw [startsInnerDefinition]
      split
      · next word next => exact absurd next (other word)
      · rfl
    refine ReadsAt.test ?_
    split
    · exact FoundWhat.outer (fun t => (reads_annotationDecl l inners t).bind fun _ _ _ formed =>
        ReadsAt.pure ⟨formed, List.nil_subperm⟩) plain
    · exact ReadsAt.expected _

theorem readsAt_definitionWith (s : Cursor) :
    ReadsAt s (definitionWith l inner) (FoundDefinition s) := by
  refine ReadsAt.here fun _ => (readsAt_annotations l s).bindFrom fun as t used rest uses =>
    (readsAt_definitionKind l inners t).bind fun kind u o what =>
    ((reads_expect _).discard u).bind fun _ _ _ _ => ReadsAt.spanned fun span => ?_
  refine ⟨⟨⟨uses.1, what.1.good⟩, ?_⟩, fun starts => ?_⟩
  · rw [places_definition]
    exact skip_subperm _ (keep_subperm what.1.places _)
  · obtain ⟨bare, nothing⟩ := uses.2 starts
    rw [List.map_eq_nil_iff.mp nothing, List.nil_append] at rest
    refine ⟨bare, what.2 ?_⟩
    rw [startsInnerDefinition, ← kind_congr rest]
    exact starts

theorem reads_exportWith :
    Reads (exportWith l (definitionKind l inner)) FoundExport := by
  intro s
  refine ReadsAt.here fun start => (forms_annotations l s).bind fun as t _ uses => ReadsAt.test ?_
  split
  · next starts =>
    refine (readsAt_definitionKind l inners t).bind fun kind u _ what =>
      ((reads_expect _).discard u).bind fun _ _ _ _ => ReadsAt.spanned fun span => ?_
    refine ⟨⟨⟨uses, what.1.good⟩, what.2 starts⟩, ?_⟩
    rw [exportPlaces, places_definition]
    exact skip_subperm _ (keep_subperm what.1.places _)
  · next plain =>
    refine (readsAt_plainExport l uses start (Bool.eq_false_iff.mpr plain)).bind fun e u _ found =>
      ((reads_expect _).discard u).bind fun _ _ _ _ => ReadsAt.pure ?_
    have places : exportPlaces e = plainPlaces e := by
      cases e with
      | definition d => exact absurd rfl (found.1 d)
      | _ => rfl
    rw [FoundExport, places]
    exact (found.2.keep _).skip _

end

/-- Definitions and exports are found at every level. -/
theorem findsInner_at (limit left : Nat) :
    FindsInner ⟨definitionAt limit left, exportAt limit left⟩ := by
  induction left with
  | zero => exact ⟨fun _ => ReadsAt.tooDeep limit, fun _ => ReadsAt.tooDeep limit⟩
  | succ left ih =>
    exact ⟨fun s => readsAt_definitionWith _ ih s, fun s => reads_exportWith _ ih s⟩

/-! Units. -/

theorem forms_importDecl : Forms importDecl fun i => i.target.Formed := by
  intro s
  refine (reads_expectKeyword _ s).bind fun start t _ _ => ReadsAt.test ?_
  have target (u : Cursor) {target : ImportTarget} (formed : target.Formed) :
      ReadsAt u (do
        discard (expect .semi)
        return (⟨target, ← spanFrom start⟩ : Import)) fun i _ => i.target.Formed :=
    ((reads_expect _).discard u).bind fun _ _ _ _ => ReadsAt.spanned fun _ => formed
  split
  · exact (ReadsAt.map ((reads_stringLiteral t).weaken fun _ _ _ => trivial)).bind
      fun _ u _ formed => target u formed
  · exact (ReadsAt.map ((forms_scopedName t).weaken fun _ _ formed => formed)).bind
      fun _ u _ formed => target u formed

theorem imports_takes (s : Cursor) (fine : ∀ t ∈ s.rest, t.Fine) :
    (∃ used, s.rest = used ++ (imports s).2.rest) ∧ ∀ i ∈ (imports s).1, i.target.Formed := by
  fun_induction imports s with
  | case1 s next i t read shorter more u eq ih =>
    have outcome := forms_importDecl s fine
    rw [read] at outcome
    obtain ⟨used, rest, formed⟩ := outcome
    obtain ⟨⟨others, rest'⟩, all⟩ := ih fun x mem => fine x (by
      rw [rest]; exact List.mem_append_right _ mem)
    rw [eq] at rest' all
    exact ⟨⟨used ++ others, by rw [rest, rest', List.append_assoc]⟩,
      List.forall_mem_cons.mpr ⟨formed, all⟩⟩
  | case2 s next i t read longer =>
    have outcome := forms_importDecl s fine
    rw [read] at outcome
    obtain ⟨used, rest, formed⟩ := outcome
    exact ⟨⟨used, rest⟩, fun j mem => List.mem_singleton.mp mem ▸ formed⟩
  | case3 s next e failed read t shorter ih =>
    have outcome := forms_importDecl s fine
    rw [read] at outcome
    obtain ⟨used, rest⟩ := outcome
    obtain ⟨more, took⟩ := recover_takes 0 (failed.report e)
    have same : (failed.report e).rest = failed.rest := rfl
    rw [same] at took
    obtain ⟨⟨others, rest'⟩, all⟩ := ih fun x mem => fine x (by
      rw [rest, took]; exact List.mem_append_right _ (List.mem_append_right _ mem))
    refine ⟨⟨used ++ more ++ others, ?_⟩, all⟩
    rw [rest, took, List.append_assoc, List.append_assoc, ← rest']
  | case4 s next e failed read t longer =>
    have outcome := forms_importDecl s fine
    rw [read] at outcome
    obtain ⟨used, rest⟩ := outcome
    obtain ⟨more, took⟩ := recover_takes 0 (failed.report e)
    have same : (failed.report e).rest = failed.rest := rfl
    rw [same] at took
    exact ⟨⟨used ++ more, by rw [rest, took, List.append_assoc]⟩, by simp⟩
  | case5 s other => exact ⟨⟨[], rfl⟩, by simp⟩

theorem found_parseTokens (limit : Nat) (tokens : List Token)
    (fine : ∀ t ∈ tokens.filter (·.isReadable), t.Fine) :
    Found (parseTokens limit tokens).specification.Formed
      ((parseTokens limit tokens).specification.definitions.flatMap Definition.places)
      ((tokens.filter (·.isReadable)).map (·.span.offset)) := by
  have start : (Cursor.ofTokens tokens).rest = tokens.filter (·.isReadable) := rfl
  have front := imports_takes (Cursor.ofTokens tokens) (by rw [start]; exact fine)
  rw [parseTokens]
  generalize imports (Cursor.ofTokens tokens) = read at front ⊢
  obtain ⟨is, s⟩ := read
  obtain ⟨⟨used, rest⟩, formed⟩ := front
  rw [start] at rest
  dsimp only at rest formed ⊢
  have inner := findsInner_at limit limit
  obtain ⟨used', rest', found⟩ := itemList_takes (·.atEnd)
    (finds_definition inner) (R := fun (ds : List Definition) o =>
      Found (∀ d ∈ ds, d.Formed) (ds.flatMap Definition.places) o)
    ⟨by simp, List.Subperm.refl _⟩ (fun _ _ _ _ first rest => first.cons rest)
    (fun before _ _ found => found.skip before) s fun t mem => fine t (by
      rw [rest]; exact List.mem_append_right _ mem)
  refine ⟨⟨formed, found.good⟩, ?_⟩
  rw [rest, rest', List.map_append, List.map_append]
  exact skip_subperm _ (keep_subperm found.places _)

end Grammar

end Idl
