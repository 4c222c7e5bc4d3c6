import Idl.Grammar.Export
import Idl.Proofs.Grammar.Expr
import Idl.Proofs.Scope.Declaration

/-!
Annotations, declarators and types are read as the grammar forms them, and what they declare stands
at tokens that were taken. Main statement: `readsAt_typeSpec`.
-/

set_option autoImplicit false

namespace Idl

/-- Where declarations begin. -/
def offsets (ds : List Declaration) : List Nat := ds.map (·.name.span.offset)

theorem offsets_append (ds es : List Declaration) : offsets (ds ++ es) = offsets ds ++ offsets es :=
  List.map_append

theorem offsets_listing (owner : Ident) (kind : SymbolKind) (values : List Enumerator) :
    offsets (listing owner kind values) =
      owner.span.offset :: values.flatMap fun v => [v.name.span.offset] := by
  rw [← List.map_eq_flatMap, offsets, listing, List.map_cons, List.map_map]
  rfl

namespace Grammar

variable (l : Level)

/-! Annotations. -/

theorem forms_annotationName : Forms annotationName fun n => n.IsKeyword ∨ n.Formed := by
  intro s fine
  suffices reads : ReadsAt s annotationName fun n _ => n.IsKeyword ∨ n.Formed from reads fine
  refine ReadsAt.kind ?_
  split
  · next word next =>
    have token := fine_peek fine (by rw [next]; simp)
    have kind : s.peek.kind = .keyword word := next
    rw [Token.Fine, kind] at token
    refine (readsAt_bump s).bind fun t _ _ eq => ReadsAt.pure (.inl ⟨word, rfl, ?_, rfl⟩)
    rw [eq]
    exact token
  · exact (forms_scopedName s).weaken fun _ _ formed => .inr formed

theorem forms_annotationArgs : Forms (annotationArgs l) AnnotationArgs.Formed := by
  have param : Forms (do
      let name ← ident
      discard (expect .equals)
      return (name, ← constExpr l)) fun p : Ident × ConstExpr => p.1.Formed ∧ p.2.Formed := fun s =>
    (forms_ident s).bind fun _ t _ name => ((reads_expect _).discard t).bind fun _ u _ _ =>
      (forms_constExpr l u).bind fun _ _ _ value => ReadsAt.pure ⟨name, value⟩
  intro s
  refine ReadsAt.test ?_
  split
  · exact ReadsAt.pure trivial
  · refine ReadsAt.test ?_
    split
    · exact (forms_commaList param s).bind fun _ _ _ formed => ReadsAt.pure formed
    · exact (forms_constExpr l s).bind fun _ _ _ formed => ReadsAt.pure formed

theorem forms_annotationUse : Forms (annotationUse l) AnnotationUse.Formed := by
  intro s
  refine (reads_expect _ s).bind fun _ t _ _ => (forms_annotationName t).bind fun _ u _ name =>
    (reads_eat _ u).bind fun open_ v _ _ => ?_
  split
  · exact (forms_annotationArgs _ v).bind fun _ w _ args =>
      ((reads_expect _).discard w).bind fun _ _ _ _ => ReadsAt.spanned fun _ => ⟨name, args⟩
  · exact ReadsAt.spanned fun _ => ⟨name, trivial⟩

theorem forms_annotations : Forms (annotations l) fun as => ∀ a ∈ as, a.Formed :=
  forms_many _ (forms_annotationUse l)

/-! Declarators. -/

theorem finds_declarator :
    Finds (declarator l) Declarator.Formed fun d => [d.name.span.offset] := by
  have dim : Forms (do
      discard (expect .leftBracket)
      let dim ← constExpr l
      discard (expect .rightBracket)
      return dim) ConstExpr.Formed := fun s =>
    ((reads_expect _).discard s).bind fun _ t _ _ => (forms_constExpr l t).bind fun _ u _ formed =>
      ((reads_expect _).discard u).bind fun _ _ _ _ => ReadsAt.pure formed
  intro s
  refine (finds_ident s).bind fun _ t _ name => (forms_many _ dim t).bind fun _ _ _ dims =>
    ReadsAt.pure ⟨⟨name.good, dims⟩, keep_subperm name.places _⟩

theorem finds_declarators : Finds (declarators l) (fun ds => ds ≠ [] ∧ ∀ d ∈ ds, d.Formed)
    (List.flatMap fun d => [d.name.span.offset]) :=
  finds_commaList (finds_declarator l)

/-! Types that hold no others. -/

/-- Where no base type begins, nothing is taken. -/
theorem reads_primitive? : Reads primitive? fun type o => type = none → o = [] := by
  intro s
  refine ReadsAt.kind ?_
  split
  · refine (reads_bump.discard s).bind fun _ t _ _ => (reads_eatKeyword _ t).bind fun _ u _ _ => ?_
    split
    · exact ReadsAt.pure fun none => by cases none
    · refine (reads_eatKeyword _ u).bind fun _ v _ _ => ?_
      split
      · exact (reads_eatKeyword _ v).bind fun _ _ _ _ => ReadsAt.pure fun none => by cases none
      · exact ReadsAt.expected _
  · refine (reads_bump.discard s).bind fun _ t _ _ => (reads_eatKeyword _ t).bind fun _ u _ _ => ?_
    split
    · exact ReadsAt.pure fun none => by cases none
    · exact (reads_eatKeyword _ u).bind fun _ _ _ _ => ReadsAt.pure fun none => by cases none
  · split
    · exact (reads_bump.discard s).bind fun _ _ _ _ => ReadsAt.pure fun none => by cases none
    · exact ReadsAt.pure fun _ => rfl
  · exact ReadsAt.pure fun _ => rfl

theorem finds_angled {α : Type} {args : Level → Parser α} {good : α → Prop} {places : α → List Nat}
    (finds : ∀ l, Finds (args l) good places) : Finds (angled l args) good places := fun s =>
  ((reads_expect _).discard s).bind fun _ t _ _ => (finds _ t).bind fun _ u _ found =>
    ((reads_expect _).discard u).bind fun _ _ _ _ =>
    ReadsAt.pure ((found.keep _).skip _)

theorem forms_angled {α : Type} {args : Level → Parser α} {good : α → Prop}
    (forms : ∀ l, Forms (args l) good) : Forms (angled l args) good :=
  (finds_angled l fun l => (forms l).finds).forms

theorem forms_base? : Forms base? fun b => ∀ type ∈ b, type.Formed := by
  intro s
  refine (reads_eat _ s).bind fun _ t _ _ => ?_
  split
  · refine (forms_scopedName t).bind fun _ _ _ formed => ReadsAt.pure fun type mem => ?_
    cases mem
    exact ⟨formed, rfl⟩
  · exact ReadsAt.pure fun type mem => by cases mem

theorem finds_enumerators :
    Finds (enumerators l) (fun vs => vs ≠ [] ∧ ∀ v ∈ vs, v.Formed)
      (List.flatMap fun v => [v.name.span.offset]) := by
  have value : Finds (do
      let uses ← annotations l
      return (⟨uses, ← ident⟩ : Enumerator)) Enumerator.Formed
      fun v => [v.name.span.offset] := fun s =>
    (forms_annotations l s).bind fun _ t _ uses => (finds_ident t).bind fun _ _ _ name =>
      ReadsAt.pure ⟨⟨uses, name.good⟩, skip_subperm _ (keep_subperm name.places _)⟩
  exact fun s => ((reads_expect _).discard s).bind fun _ t _ _ =>
    (finds_commaList value t).bind fun _ u _ found =>
    ((reads_expect _).discard u).bind fun _ _ _ _ => ReadsAt.pure ((found.keep _).skip _)

theorem finds_enumType : Finds (enumType l) EnumType.Formed
    fun t => offsets (TypeSpec.enum t).declarations := by
  intro s
  refine (reads_expectKeyword _ s).bind fun _ t _ _ => (finds_ident t).bind fun _ u _ name =>
    (finds_enumerators l u).bind fun _ _ _ values => ReadsAt.spanned fun _ => ?_
  refine ⟨⟨name.good, values.good.1, values.good.2⟩, ?_⟩
  dsimp only
  rw [TypeSpec.declarations, offsets_listing]
  exact skip_subperm _ (name.places.append (keep_subperm values.places _))

theorem finds_bitmaskType : Finds (bitmaskType l) BitmaskType.Formed
    fun t => offsets (TypeSpec.bitmask t).declarations := by
  intro s
  refine (reads_expectKeyword _ s).bind fun _ t _ _ => (finds_ident t).bind fun _ u _ name =>
    (finds_enumerators l u).bind fun _ _ _ values => ReadsAt.spanned fun _ => ?_
  refine ⟨⟨name.good, values.good.1, values.good.2⟩, ?_⟩
  dsimp only
  rw [TypeSpec.declarations, offsets_listing]
  exact skip_subperm _ (name.places.append (keep_subperm values.places _))

theorem forms_bitfieldArgs : Forms (bitfieldArgs l)
    fun args => args.1.Formed ∧ ∀ k ∈ args.2, k.bitWidth?.isSome = true := by
  intro s
  refine (forms_constExpr l s).bind fun _ t _ width => (reads_eat _ t).bind fun _ u _ _ => ?_
  split
  · refine (reads_primitive? u).bind fun type v _ _ => ?_
    cases type with
    | none => exact ReadsAt.expected _
    | some k =>
      dsimp only
      split
      · next known =>
        refine ReadsAt.pure ⟨width, fun other mem => ?_⟩
        cases mem
        exact known
      · exact ReadsAt.expected _
  · exact ReadsAt.pure ⟨width, fun other mem => by cases mem⟩

theorem forms_bitfield : Forms (bitfield l) Bitfield.Formed := by
  intro s
  refine ReadsAt.here fun _ => (forms_annotations l s).bind fun _ t _ uses =>
    ((reads_expectKeyword _).discard t).bind fun _ u _ _ =>
    (forms_angled l forms_bitfieldArgs u).bind fun args v _ formed => ?_
  obtain ⟨width, type⟩ := args
  refine ReadsAt.test ?_
  split
  · exact ((reads_expect _).discard v).bind fun _ _ _ _ =>
      ReadsAt.spanned fun _ => ⟨uses, formed.1, formed.2, fun _ mem => by cases mem⟩
  · exact (forms_commaList forms_ident v).bind fun _ w _ names =>
      ((reads_expect _).discard w).bind fun _ _ _ _ =>
      ReadsAt.spanned fun _ => ⟨uses, formed.1, formed.2, names.2⟩

theorem finds_bitsetType : Finds (bitsetType l) BitsetType.Formed
    fun t => offsets (TypeSpec.bitset t).declarations := by
  intro s
  refine (reads_expectKeyword _ s).bind fun _ t _ _ => (finds_ident t).bind fun _ u _ name =>
    (forms_base? u).bind fun _ v _ base => ((reads_expect _).discard v).bind fun _ w _ _ =>
    (forms_many _ (forms_bitfield l) w).bind fun _ x _ fields =>
    ((reads_expect _).discard x).bind fun _ _ _ _ => ReadsAt.spanned fun _ => ?_
  refine ⟨⟨name.good, base, fields⟩, ?_⟩
  dsimp only
  rw [TypeSpec.declarations]
  exact skip_subperm _ (keep_subperm name.places _)

/-! Types that hold others. -/

theorem offsets_memberDeclarations (ms : List (Member TypeSpec)) :
    offsets (memberDeclarations ms) = ms.flatMap fun m => offsets m.type.declarations := by
  induction ms with
  | nil => rw [memberDeclarations, offsets, List.map_nil, List.flatMap_nil]
  | cons m ms ih =>
    obtain ⟨as, type, ds, span⟩ := m
    rw [memberDeclarations, offsets_append, ih, List.flatMap_cons]

theorem offsets_caseDeclarations (cs : List (UnionCase TypeSpec)) :
    offsets (caseDeclarations cs) = cs.flatMap fun c => offsets c.type.declarations := by
  induction cs with
  | nil => rw [caseDeclarations, offsets, List.map_nil, List.flatMap_nil]
  | cons c cs ih =>
    obtain ⟨labels, as, type, d, span⟩ := c
    rw [caseDeclarations, offsets_append, ih, List.flatMap_cons]

/-- A formed type that declares its names at the offsets. -/
abbrev FoundType (τ : TypeSpec) (o : List Nat) : Prop := Found τ.Formed (offsets τ.declarations) o

theorem forms_caseLabel : Forms (caseLabel l) CaseLabel.Formed := by
  intro s
  refine (reads_eatKeyword _ s).bind fun _ t _ _ => ?_
  split
  · exact (forms_constExpr l t).bind fun _ u _ formed =>
      ((reads_expect _).discard u).bind fun _ _ _ _ => ReadsAt.pure formed
  · exact (reads_expectKeyword _ t).bind fun _ u _ _ =>
      ((reads_expect _).discard u).bind fun _ _ _ _ => ReadsAt.pure trivial

section

variable {type : Parser TypeSpec} (types : Reads type FoundType)

include types

theorem finds_member :
    Finds (member l type) Member.Formed fun m => offsets m.type.declarations := by
  intro s
  refine ReadsAt.here fun _ => (forms_annotations l s).bind fun _ t _ uses =>
    (types t).bind fun _ u _ ty => (finds_declarators l u).bind fun _ v _ names =>
    ((reads_expect _).discard v).bind fun _ _ _ _ => ReadsAt.spanned fun _ => ?_
  exact ⟨⟨uses, ty.good, names.good.1, names.good.2⟩, skip_subperm _ (keep_subperm ty.places _)⟩

theorem finds_members :
    Finds (members l type) membersFormed fun ms => offsets (memberDeclarations ms) :=
  (finds_many _ (finds_member l types)).weaken fun ms o found => by
    dsimp only
    rw [membersFormed_iff, offsets_memberDeclarations]
    exact found

theorem reads_structBody (start : Span) (name : Ident) :
    Reads (structBody l type start name) fun t o => name.Formed →
      Found (TypeSpec.struct t).Formed (offsets (TypeSpec.struct t).declarations)
        (name.span.offset :: o) := by
  intro s
  refine (forms_base? s).bind fun _ t _ base => ((reads_expect _).discard t).bind fun _ u _ _ =>
    (finds_members l types u).bind fun _ v _ fields => ((reads_expect _).discard v).bind
    fun _ _ _ _ => ReadsAt.spanned fun _ formed => ?_
  rw [TypeSpec.Formed, TypeSpec.declarations]
  refine ⟨⟨formed, base, fields.good⟩, ?_⟩
  exact (List.subperm_cons _).mpr (skip_subperm _ (skip_subperm _ (keep_subperm fields.places _)))

theorem finds_unionCase :
    Finds (unionCase l type) UnionCase.Formed fun c => offsets c.type.declarations := by
  intro s
  refine ReadsAt.here fun _ => (forms_many _ (forms_caseLabel l) s).bind
    fun labels t _ formed => ?_
  dsimp only
  split
  · exact ReadsAt.failed
  · next some =>
    refine (forms_annotations l t).bind fun _ u _ uses => (types u).bind fun _ v _ ty =>
      (finds_declarator l v).bind fun _ w _ name => ((reads_expect _).discard w).bind
      fun _ _ _ _ => ReadsAt.spanned fun _ => ?_
    refine ⟨⟨?_, formed, uses, ty.good, name.good⟩, ?_⟩
    · rintro rfl
      exact some rfl
    · exact skip_subperm _ (skip_subperm _ (keep_subperm ty.places _))

theorem reads_unionBody (start : Span) (name : Ident) :
    Reads (unionBody l type start name) fun t o => name.Formed →
      Found (TypeSpec.union t).Formed (offsets (TypeSpec.union t).declarations)
        (name.span.offset :: o) := by
  intro s
  refine ((reads_expectKeyword _).discard s).bind fun _ t _ _ => (reads_expect _ t).bind
    fun _ u _ _ => (forms_annotations l u).bind fun _ v _ uses => (types v).bind fun _ w _ ty =>
    ((reads_expect _).discard w).bind fun _ x _ _ => ReadsAt.spanFrom fun _ =>
    ((reads_expect _).discard x).bind fun _ y _ _ =>
    (finds_many _ (finds_unionCase l types) y).bind fun cases z _ found => ?_
  dsimp only
  split
  · exact ReadsAt.failed
  · next some =>
    refine ((reads_expect _).discard z).bind fun _ _ _ _ => ReadsAt.spanned fun _ formed => ?_
    rw [TypeSpec.Formed, TypeSpec.declarations, casesFormed_iff]
    refine ⟨⟨formed, uses, ty.good, ?_, found.good⟩, ?_⟩
    · rintro rfl
      exact some rfl
    · have cases := found.places
      rw [← offsets_caseDeclarations] at cases
      refine (List.subperm_cons _).mpr (skip_subperm _ (skip_subperm _ (skip_subperm _ ?_)))
      change (offsets (_ ++ _)).Subperm _
      rw [offsets_append]
      exact ty.places.append (skip_subperm _ (skip_subperm _ (keep_subperm cases _)))

end

theorem forms_bound? : Forms (bound? l) fun b => ∀ e ∈ b, e.Formed := by
  intro s
  refine (reads_eat _ s).bind fun _ t _ _ => ?_
  split
  · refine (forms_constExpr l t).bind fun _ _ _ formed => ReadsAt.pure fun e mem => ?_
    cases mem
    exact formed
  · exact ReadsAt.pure fun e mem => by cases mem

theorem forms_stringBound? : Forms (stringBound? l) fun b => ∀ e ∈ b, e.Formed := by
  intro s
  refine ReadsAt.test ?_
  split
  · refine (forms_angled l forms_constExpr s).bind fun _ _ _ formed => ReadsAt.pure fun e mem => ?_
    cases mem
    exact formed
  · exact ReadsAt.pure fun e mem => by cases mem

/-- A formed type at the offsets. If it is constructed, it began with the word. -/
def FoundWord (word : Keyword) (τ : TypeSpec) (o : List Nat) : Prop :=
  FoundType τ o ∧
    (τ.isConstructed = true → word ∈ [Keyword.struct, .union, .enum, .bitset, .bitmask])

theorem foundWord_of_plain {τ : TypeSpec} {o : List Nat} {word : Keyword} (found : FoundType τ o)
    (plain : τ.isConstructed = false) : FoundWord word τ o :=
  ⟨found, fun constructed => by rw [plain] at constructed; cases constructed⟩

/-- A type that declares nothing. -/
theorem foundWord_of_formed {τ : TypeSpec} {o : List Nat} {word : Keyword} (formed : τ.Formed)
    (none : τ.declarations = []) (plain : τ.isConstructed = false) : FoundWord word τ o := by
  refine foundWord_of_plain ⟨formed, ?_⟩ plain
  rw [none]
  exact List.nil_subperm

/-- A word and, between angles, what makes a type of it. -/
theorem reads_template {args : Level → Parser TypeSpec} (word : Keyword)
    (reads : ∀ l, Finds (args l) (fun τ => τ.Formed ∧ τ.isConstructed = false)
      fun τ => offsets τ.declarations) :
    Reads (discard bump >>= fun _ => angled l args) (FoundWord word) := fun s =>
  (reads_bump.discard s).bind fun _ t _ _ => (finds_angled l reads t).weaken fun _ _ found =>
    foundWord_of_plain ((found.imp And.left).skip _) found.good.2

theorem reads_keywordType {type : Bool → Parser TypeSpec} (types : ∀ b, Reads (type b) FoundType)
    (word : Keyword) : Reads (keywordType l type word) (FoundWord word) := by
  have unknown : Reads (expected "type") (FoundWord word) := Reads.expected _
  intro s
  cases word with
  | sequence =>
    refine reads_template l .sequence (fun inner t => ?_) s
    exact (types true t).bind fun _ u _ element => (forms_bound? inner u).bind fun _ _ _ bound =>
      ReadsAt.pure ⟨⟨⟨element.good, bound⟩, rfl⟩, keep_subperm element.places _⟩
  | set =>
    refine reads_template l .set (fun inner t => ?_) s
    exact (types true t).bind fun _ u _ element => (forms_bound? inner u).bind fun _ _ _ bound =>
      ReadsAt.pure ⟨⟨⟨element.good, bound⟩, rfl⟩, keep_subperm element.places _⟩
  | map =>
    refine reads_template l .map (fun inner t => ?_) s
    refine (types true t).bind fun _ u _ key => ((reads_expect _).discard u).bind fun _ v _ _ =>
      (types true v).bind fun _ w _ value => (forms_bound? inner w).bind fun _ _ _ bound =>
      ReadsAt.pure ⟨⟨⟨key.good, value.good, bound⟩, rfl⟩, ?_⟩
    dsimp only
    rw [TypeSpec.declarations, offsets_append]
    exact key.places.append (skip_subperm _ (keep_subperm value.places _))
  | string =>
    exact (reads_bump.discard s).bind fun _ t _ _ => (forms_stringBound? l t).bind
      fun _ _ _ bound => ReadsAt.pure (foundWord_of_formed bound rfl rfl)
  | wstring =>
    exact (reads_bump.discard s).bind fun _ t _ _ => (forms_stringBound? l t).bind
      fun _ _ _ bound => ReadsAt.pure (foundWord_of_formed bound rfl rfl)
  | fixed =>
    refine (reads_bump.discard s).bind fun _ t _ _ => ReadsAt.test ?_
    split
    · have args (inner : Level) : Forms (do
          let digits ← constExpr inner
          discard (expect .comma)
          let scale ← constExpr inner
          return TypeSpec.fixed (some (digits, scale)))
          fun τ => FoundWord .fixed τ [] := fun u =>
        (forms_constExpr inner u).bind fun _ v _ digits => ((reads_expect _).discard v).bind
          fun _ w _ _ => (forms_constExpr inner w).bind fun _ _ _ scale =>
          ReadsAt.pure (foundWord_of_formed ⟨digits, scale⟩ rfl rfl)
      refine (forms_angled l args t).weaken fun _ o found => ⟨?_, found.2⟩
      have skipped := found.1.keep o
      exact skipped.skip _
    · exact ReadsAt.pure (foundWord_of_formed trivial rfl rfl)
  | struct =>
    refine (reads_bump s).bind fun _ t _ _ => (finds_ident t).bind fun name u _ found =>
      (reads_structBody l (types l.inTemplate) _ name u).bind fun _ _ _ body => ReadsAt.pure ?_
    rw [List.append_nil]
    exact ⟨(Found.named found.places (body found.good)).skip _, fun _ => by decide⟩
  | union =>
    refine (reads_bump s).bind fun _ t _ _ => (finds_ident t).bind fun name u _ found =>
      (reads_unionBody l (types l.inTemplate) _ name u).bind fun _ _ _ body => ReadsAt.pure ?_
    rw [List.append_nil]
    exact ⟨(Found.named found.places (body found.good)).skip _, fun _ => by decide⟩
  | enum =>
    exact (finds_enumType l s).bind fun _ _ _ found =>
      ReadsAt.pure ⟨found.keep _, fun _ => by decide⟩
  | bitset =>
    exact (finds_bitsetType l s).bind fun _ _ _ found =>
      ReadsAt.pure ⟨found.keep _, fun _ => by decide⟩
  | bitmask =>
    exact (finds_bitmaskType l s).bind fun _ _ _ found =>
      ReadsAt.pure ⟨found.keep _, fun _ => by decide⟩
  | _ => exact ReadsAt.expected _

/-- What is next is told by the tokens left. -/
theorem kind_congr {s t : Cursor} (same : s.rest = t.rest) : s.kind = t.kind := by
  rw [Cursor.kind, Cursor.kind, Cursor.peek, Cursor.peek, Cursor.nth, Cursor.nth, same]
  cases t.rest <;> rfl

/-- A formed type at the offsets. If it is constructed, a definition could begin at `s`. -/
def FoundFrom (s : Cursor) (τ : TypeSpec) (o : List Nat) : Prop :=
  FoundType τ o ∧ (τ.isConstructed = true → startsInnerDefinition s = true)

theorem readsAt_typeWith {type : Bool → Parser TypeSpec} (types : ∀ b, Reads (type b) FoundType)
    (s : Cursor) : ReadsAt s (typeWith l type) (FoundFrom s) := by
  have unbound (t : Cursor) : ReadsAt t (do return TypeSpec.named ⟨← scopedName, none⟩)
      (FoundFrom s) := by
    refine (forms_scopedName t).bind fun _ _ _ formed => ReadsAt.pure ⟨⟨⟨formed, rfl⟩, ?_⟩, ?_⟩
    · exact List.nil_subperm
    · intro constructed
      cases constructed
  refine (reads_primitive? s).bindFrom fun found t used rest left => ?_
  cases found with
  | some primitive =>
    exact ReadsAt.pure ⟨⟨trivial, List.nil_subperm⟩, fun constructed => by cases constructed⟩
  | none =>
    rw [List.map_eq_nil_iff.mp (left rfl)] at rest ⊢
    dsimp only
    refine ReadsAt.kind ?_
    split
    · exact unbound t
    · exact unbound t
    · next word next =>
      refine (reads_keywordType l types word t).weaken fun τ o found =>
        ⟨found.1, fun constructed => ?_⟩
      have member := found.2 constructed
      rw [startsInnerDefinition, kind_congr rest, next]
      dsimp only
      rw [decide_eq_true_eq]
      have within : [Keyword.struct, .union, .enum, .bitset, .bitmask] ⊆ [Keyword.struct, .union,
          .enum, .bitset, .bitmask, .typeDef, .native, .const, .exception, .typeId,
          .typePrefix] := by decide
      exact within member
    · exact ReadsAt.expected _

theorem reads_typeSpecAt (limit left : Nat) (inTemplate : Bool) :
    Reads (typeSpecAt limit left inTemplate) FoundType := by
  induction left generalizing inTemplate with
  | zero => exact fun _ => ReadsAt.tooDeep limit
  | succ left ih =>
    exact fun s => (readsAt_typeWith _ (fun inner => ih inner) s).weaken fun _ _ found => found.1

theorem readsAt_typeSpec (s : Cursor) : ReadsAt s (typeSpec l) (FoundFrom s) := by
  obtain ⟨limit, left, inTemplate⟩ := l
  cases left with
  | zero => exact ReadsAt.tooDeep limit
  | succ left => exact readsAt_typeWith _ (fun inner => reads_typeSpecAt limit left inner) s

theorem reads_typeSpec : Reads (typeSpec l) FoundType :=
  fun s => (readsAt_typeSpec l s).weaken fun _ _ found => found.1

end Grammar

end Idl
