import Idl.Proofs.Grammar.Type

/-!
Attributes, operations, initializers, ports and state members are read as the grammar forms them.
Main statement: `readsAt_plainExport`.
-/

set_option autoImplicit false

namespace Idl.Grammar

variable (l : Level)

theorem forms_scopedNames : Forms scopedNames fun ns => ns ≠ [] ∧ ∀ n ∈ ns, n.Formed :=
  forms_commaList forms_scopedName

theorem forms_raises (word : Keyword) : Forms (raises word) fun ns => ∀ n ∈ ns, n.Formed := by
  intro s
  refine (reads_eatKeyword _ s).bind fun _ t _ _ => ?_
  split
  · exact ((reads_expect _).discard t).bind fun _ u _ _ => (forms_scopedNames u).bind
      fun _ v _ names => ((reads_expect _).discard v).bind fun _ _ _ _ => ReadsAt.pure names.2
  · exact ReadsAt.pure fun n mem => by cases mem

theorem reads_direction : Reads direction fun _ _ => True := by
  intro s
  refine ReadsAt.kind ?_
  split
  · exact (reads_bump.discard s).bind fun _ _ _ _ => ReadsAt.pure trivial
  · exact (reads_bump.discard s).bind fun _ _ _ _ => ReadsAt.pure trivial
  · exact (reads_bump.discard s).bind fun _ _ _ _ => ReadsAt.pure trivial
  · exact ReadsAt.expected _

theorem forms_typeSpec : Forms (typeSpec l) TypeSpec.Formed :=
  (reads_typeSpec l).weaken fun _ _ found => found.good

theorem forms_param : Forms (param l) Param.Formed := fun s =>
  (forms_annotations l s).bind fun _ t _ uses => (reads_direction t).bind fun _ u _ _ =>
    (forms_typeSpec l u).bind fun _ v _ type => (forms_ident v).bind fun _ _ _ name =>
    ReadsAt.pure ⟨uses, type, name⟩

theorem forms_params : Forms (params l) fun ps => ∀ p ∈ ps, p.Formed := by
  intro s
  refine ((reads_expect _).discard s).bind fun _ t _ _ => ReadsAt.test ?_
  split
  · exact ((reads_expect _).discard t).bind fun _ _ _ _ => ReadsAt.pure fun p mem => by cases mem
  · exact (forms_commaList (forms_param l) t).bind fun _ u _ ps =>
      ((reads_expect _).discard u).bind fun _ _ _ _ => ReadsAt.pure ps.2

theorem forms_attributeDecl {uses : List AnnotationUse} (formed : ∀ a ∈ uses, a.Formed) :
    Forms (attributeDecl l uses) Attribute.Formed := by
  intro s
  refine ReadsAt.here fun _ => (reads_eatKeyword _ s).bind fun readonly t _ _ =>
    ((reads_expectKeyword _).discard t).bind fun _ u _ _ => (forms_typeSpec l u).bind
    fun _ v _ type => (forms_commaList forms_ident v).bind fun _ w _ names => ?_
  cases readonly with
  | true =>
    exact (forms_raises _ w).bind fun _ _ _ gets => ReadsAt.spanned fun _ =>
      ⟨formed, type, names.1, names.2, gets, fun n mem => (by cases mem), fun _ => rfl⟩
  | false =>
    exact (forms_raises _ w).bind fun _ x _ gets => (forms_raises _ x).bind fun _ _ _ sets =>
      ReadsAt.spanned fun _ =>
      ⟨formed, type, names.1, names.2, gets, sets, fun readonly => by cases readonly⟩

theorem reads_context : Reads context fun _ _ => True := by
  intro s
  refine (reads_eatKeyword _ s).bind fun _ t _ _ => ?_
  split
  · refine ((reads_expect _).discard t).bind fun _ u _ _ =>
      (forms_commaList (reads_stringLiteral.weaken fun _ _ _ => trivial) u).bind
      fun _ v _ (_ : _ ≠ [] ∧ ∀ _ ∈ _, True) => ((reads_expect _).discard v).bind fun _ _ _ _ =>
      ReadsAt.pure trivial
  · exact ReadsAt.pure trivial

/-- The result of an operation, unless it is void. -/
theorem readsAt_result (s : Cursor) :
    ReadsAt s (do if ← eatKeyword .void then pure none else some <$> typeSpec l)
      fun result _ => ∀ τ ∈ result, τ.Formed ∧
        (τ.isConstructed = true → startsInnerDefinition s = true) := by
  refine ReadsAt.eatKeyword (fun t _ => ?_) fun _ => ?_
  · exact ReadsAt.pure fun τ mem => by cases mem
  · refine ReadsAt.map ((readsAt_typeSpec l s).weaken fun _ _ found τ mem => ?_)
    cases mem
    exact ⟨found.1.good, found.2⟩

/-- An operation that does not begin like a definition. -/
theorem readsAt_operation {uses : List AnnotationUse} (formed : ∀ a ∈ uses, a.Formed) (start : Span)
    {s : Cursor} (plain : startsInnerDefinition s = false) :
    ReadsAt s (operation l uses start) fun o _ => o.Formed := by
  have more (t : Cursor) {oneway : Bool} {result : Option TypeSpec} (types : ∀ τ ∈ result, τ.Formed)
      (inner : oneway = false → ∀ τ ∈ result, τ.isConstructed = false) :
      ReadsAt t (do
        let name ← ident
        let ps ← params l
        let names ← raises .raises
        let texts ← context
        return ⟨uses, oneway, result, name, ps, names, texts, ← spanFrom start⟩)
        fun (o : Operation) _ => o.Formed :=
    (forms_ident t).bind fun _ u _ name => (forms_params l u).bind fun _ v _ ps =>
      (forms_raises _ v).bind fun _ w _ names => (reads_context w).bind fun _ _ _ _ =>
      ReadsAt.spanned fun _ => ⟨formed, types, inner, name, ps, names⟩
  have unfolded : operation l uses start = (do
      let oneway ← eatKeyword .oneway
      let result ← (do if ← eatKeyword .void then pure none else some <$> typeSpec l)
      let name ← ident
      let ps ← params l
      let names ← raises .raises
      let texts ← context
      return ⟨uses, oneway, result, name, ps, names, texts, ← spanFrom start⟩) := by
    rw [operation]
    simp only [bind_assoc]
    refine congrArg _ (funext fun oneway => congrArg _ (funext fun isVoid => ?_))
    cases isVoid <;> rfl
  rw [unfolded]
  refine ReadsAt.eatKeyword (fun t _ => ?_) fun _ => ?_
  · exact (readsAt_result l t).bind fun _ u _ types =>
      more u (fun τ mem => (types τ mem).1) fun oneway => by cases oneway
  · refine (readsAt_result l s).bind fun _ u _ types =>
      more u (fun τ mem => (types τ mem).1) fun _ τ mem => ?_
    by_contra constructed
    have starts := (types τ mem).2 (Bool.not_eq_false _ ▸ constructed)
    rw [plain] at starts
    cases starts

theorem finds_stateMember {uses : List AnnotationUse} (formed : ∀ a ∈ uses, a.Formed) (start : Span)
    (isPublic : Bool) : Finds (stateMember l uses start isPublic) (fun m => m.member.Formed)
      fun m => offsets m.member.type.declarations := fun s =>
  (reads_bump.discard s).bind fun _ t _ _ => (reads_typeSpec l t).bind fun _ u _ type =>
    (finds_declarators l u).bind fun _ _ _ names => ReadsAt.spanned fun _ =>
    ⟨⟨formed, type.good, names.good.1, names.good.2⟩, skip_subperm _ (keep_subperm type.places _)⟩

theorem forms_initializer (start : Span) (kind : InitializerKind) :
    Forms (initializer l start kind) Initializer.Formed := fun s =>
  (reads_bump.discard s).bind fun _ t _ _ => (forms_ident t).bind fun _ u _ name =>
    (forms_params l u).bind fun _ v _ ps => (forms_raises _ v).bind fun _ _ _ names =>
    ReadsAt.spanned fun _ => ⟨name, ps, names⟩

theorem forms_port (start : Span) {kind : Parser PortKind} (kinds : Reads kind fun _ _ => True) :
    Forms (port start kind) Port.Formed := fun s =>
  (kinds s).bind fun _ t _ _ => (forms_scopedName t).bind fun _ u _ type =>
    (forms_ident u).bind fun _ _ _ name => ReadsAt.spanned fun _ => ⟨type, name⟩

theorem reads_portKind {word : Keyword} {kind : Parser PortKind}
    (known : portKind? word = some kind) : Reads kind fun _ _ => True := by
  unfold portKind? at known
  split at known
  · cases known
    exact fun s => (reads_bump.discard s).bind fun _ _ _ _ => ReadsAt.pure trivial
  · cases known
    exact fun s => (reads_bump.discard s).bind fun _ t _ _ => (reads_eatKeyword _ t).bind
      fun _ _ _ _ => ReadsAt.pure trivial
  · cases known
    exact fun s => (reads_bump.discard s).bind fun _ _ _ _ => ReadsAt.pure trivial
  · cases known
    exact fun s => (reads_bump.discard s).bind fun _ _ _ _ => ReadsAt.pure trivial
  · cases known
    exact fun s => (reads_bump.discard s).bind fun _ _ _ _ => ReadsAt.pure trivial
  · cases known

/-- Where the declarations of an export that is no definition begin. -/
def plainPlaces : Export Definition → List Nat
  | .stateMember m => offsets m.member.type.declarations
  | _ => []

theorem readsAt_plainExport {uses : List AnnotationUse} (formed : ∀ a ∈ uses, a.Formed)
    (start : Span) {s : Cursor} (plain : startsInnerDefinition s = false) :
    ReadsAt s (plainExport l uses start) fun e o =>
      (∀ d, e ≠ .definition d) ∧ Found e.Formed (plainPlaces e) o := by
  have operations : ReadsAt s (do return Export.operation (← operation l uses start))
      fun e o => (∀ d, e ≠ .definition d) ∧ Found e.Formed (plainPlaces e) o :=
    (readsAt_operation l formed start plain).bind fun _ _ _ formed =>
      ReadsAt.pure ⟨by simp, formed, List.nil_subperm⟩
  refine ReadsAt.kind ?_
  split
  · exact (forms_attributeDecl l formed s).bind fun _ _ _ formed =>
      ReadsAt.pure ⟨by simp, formed, List.nil_subperm⟩
  · exact (forms_attributeDecl l formed s).bind fun _ _ _ formed =>
      ReadsAt.pure ⟨by simp, formed, List.nil_subperm⟩
  · exact (finds_stateMember l formed start true s).bind fun _ _ _ found =>
      ReadsAt.pure ⟨by simp, found.keep _⟩
  · exact (finds_stateMember l formed start false s).bind fun _ _ _ found =>
      ReadsAt.pure ⟨by simp, found.keep _⟩
  · exact (forms_initializer l start _ s).bind fun _ _ _ formed =>
      ReadsAt.pure ⟨by simp, formed, List.nil_subperm⟩
  · exact (forms_initializer l start _ s).bind fun _ _ _ formed =>
      ReadsAt.pure ⟨by simp, formed, List.nil_subperm⟩
  · split
    · next kind known =>
      exact (forms_port start (reads_portKind known) s).bind fun _ _ _ formed =>
        ReadsAt.pure ⟨by simp, formed, List.nil_subperm⟩
    · exact operations
  · exact operations

end Idl.Grammar
