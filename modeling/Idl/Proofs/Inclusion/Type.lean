import Idl.Proofs.Inclusion.Expr
import Idl.Proofs.Lockstep.Type

/-!
Annotations, declarators and types are read with nested spans. Main statement: `adds_typeSpec`.
-/

set_option autoImplicit false

namespace Idl.Grammar

variable {α : Type}

/-! Annotations and declarators. -/

theorem adds_annotationName : Adds annotationName fun n => [n.tree] := by
  intro s start i pre
  refine .kind ?_
  split
  · next word next =>
    exact (AddsAt.bump (Cursor.present_of_kind (by rw [next]; nofun))).bind fun t =>
      .regroup (fun _ _ => Arranged.wrap) (.pure rfl)
  · exact (adds_scopedName s).last

theorem mayAdd_annotationArgs (l : Level) : MayAdd (annotationArgs l) AnnotationArgs.row := by
  intro start i pre
  have param : Adds (do
      let name ← ident
      discard (expect .equals)
      return (name, ← constExpr l)) fun p => [p.1.tree, p.2.tree] :=
    .of fun _ _ _ => adds_ident.bind fun _ => (adds_expect _).discard.pass fun _ =>
      (adds_constExpr l).bind fun _ => .pure (List.append_assoc _ _ _)
  exact .test fun _ => .branch (.pure (List.append_nil _).symm) (.test fun _ => .branch
    ((adds_commaList (.flatMap _) param).may.bind fun _ => .pure rfl)
    ((adds_constExpr l).may.bind fun _ => .pure rfl))

theorem adds_annotationUse (l : Level) : Adds (annotationUse l) fun a => [a.tree] :=
  adds_ofExpect fun _ => adds_annotationName.bind fun _ => (mayAdd_eat _).pass fun _ => .branch
    ((mayAdd_annotationArgs _).bind fun _ => (adds_expect _).discard.pass fun _ =>
      .spanned fun _ => rfl)
    (.spanned fun _ => rfl)

theorem mayAdd_annotations (l : Level) : MayAdd (annotations l) annotationRow :=
  mayAdd_many (.map _) _ (adds_annotationUse l)

theorem adds_declarator (l : Level) : Adds (declarator l) Declarator.row := by
  have dim : Adds (do
      discard (expect .leftBracket)
      let dim ← constExpr l
      discard (expect .rightBracket)
      return dim) fun e => [e.tree] :=
    .of fun _ _ _ => (adds_expect _).discard.pass fun _ => (adds_constExpr l).bind fun _ =>
      (adds_expect _).discard.pass fun _ => .pure rfl
  exact .of fun _ _ _ => adds_ident.bind fun _ => (mayAdd_many (.map _) _ dim).bind fun _ =>
    .pure (List.append_assoc _ _ _)

theorem adds_declarators (l : Level) :
    Adds (declarators l) fun ds => ds.flatMap Declarator.row :=
  adds_commaList (.flatMap _) (adds_declarator l)

/-! Types that hold no others. -/

/-- What follows a base type that may be there, where nothing is taken if it is not. -/
theorem ExtendsAt.primitive? {start : Span} {i j : Bool} {pre : List SpanTree} {s : Cursor}
    {f : Option Primitive → Parser α} {Q : α → List SpanTree → Prop}
    (taken : ∀ type, Extends start true j pre (f type) Q)
    (none : ExtendsAt start i j pre s (f none) Q) :
    ExtendsAt start i j pre s (Grammar.primitive? >>= f) Q := by
  rw [Grammar.primitive?, bind_assoc]
  refine .kind ?_
  split
  · next next =>
    refine AddsAt.pass (fun _ _ _ => ?_) taken
    exact (AddsAt.bump (Cursor.present_of_kind (by rw [next]; decide))).discard.pass fun _ =>
      (mayAdd_eatKeyword _).pass fun _ => .branch (.pure (List.append_nil _).symm)
        ((mayAdd_eatKeyword _).pass fun _ => .branch
          ((mayAdd_eatKeyword _).pass fun _ => .pure (List.append_nil _).symm) (.expected _))
  · next next =>
    refine AddsAt.pass (fun _ _ _ => ?_) taken
    exact (AddsAt.bump (Cursor.present_of_kind (by rw [next]; decide))).discard.pass fun _ =>
      (mayAdd_eatKeyword _).pass fun _ => .branch (.pure (List.append_nil _).symm)
        ((mayAdd_eatKeyword _).pass fun _ => .pure (List.append_nil _).symm)
  · next next =>
    split
    · refine AddsAt.pass (fun _ _ _ => ?_) taken
      exact (AddsAt.silent (Cursor.present_of_kind (by simp [next]))).last
    · rw [pure_bind]
      exact none
  · rw [pure_bind]
    exact none

theorem adds_angled {l : Level} {args : Level → Parser α} {f : α → List SpanTree}
    (inner : ∀ l, Adds (args l) f) : Adds (angled l args) f :=
  .of fun _ _ _ => (adds_expect _).discard.pass fun _ => (inner _).bind fun _ =>
    (adds_expect _).discard.pass fun _ => .pure rfl

theorem mayAdd_base? : MayAdd base? baseRow := fun _ _ _ => (mayAdd_eat _).pass fun _ => .branch
  (adds_scopedName.may.bind fun _ => .pure rfl) (.pure (List.append_nil _).symm)

theorem adds_enumerators (l : Level) :
    Adds (enumerators l) fun vs => vs.flatMap Enumerator.row := by
  have value : Adds (do
      let uses ← annotations l
      return (⟨uses, ← ident⟩ : Enumerator)) Enumerator.row :=
    .of fun _ _ _ => (mayAdd_annotations l).bind fun _ => adds_ident.bind fun _ =>
      .pure (List.append_assoc _ _ _)
  exact .of fun _ _ _ => (adds_expect _).discard.pass fun _ =>
    (adds_commaList (.flatMap _) value).bind fun _ => (adds_expect _).discard.pass fun _ =>
    .pure rfl

theorem adds_enumType (l : Level) : Adds (enumType l) fun t => [t.tree] :=
  adds_ofKeyword fun _ => adds_ident.bind fun _ => (adds_enumerators l).bind fun _ =>
    .spanned fun _ => rfl

theorem adds_bitmaskType (l : Level) : Adds (bitmaskType l) fun t => [t.tree] :=
  adds_ofKeyword fun _ => adds_ident.bind fun _ => (adds_enumerators l).bind fun _ =>
    .spanned fun _ => rfl

theorem adds_bitfieldArgs (l : Level) : Adds (bitfieldArgs l) fun r => [r.1.tree] := by
  refine .of fun _ _ _ => (adds_constExpr l).bind fun _ => (mayAdd_eat _).pass fun _ => .branch
    (fun s => .primitive? (fun type => ?_) (.expected _)) (.pure rfl)
  cases type with
  | none => exact .expected _
  | some k => exact .branch (.pure rfl) (.expected _)

theorem adds_bitfield (l : Level) : Adds (bitfield l) fun f => [f.tree] := by
  refine adds_here fun _ => (mayAdd_annotations l).bind fun _ =>
    (adds_expectKeyword _).discard.pass fun _ => (adds_angled adds_bitfieldArgs).bind fun args => ?_
  obtain ⟨e, type⟩ := args
  refine .test fun _ => .branch ?_ ?_
  · rw [pure_bind]
    exact (adds_expect _).discard.pass fun _ => .spanned fun _ => rfl
  · exact (adds_commaList (.map Ident.tree) adds_ident).bind fun _ =>
      (adds_expect _).discard.pass fun _ => .spanned fun _ => by
        simp [Bitfield.tree]

theorem adds_bitsetType (l : Level) : Adds (bitsetType l) fun t => [t.tree] :=
  adds_ofKeyword fun _ => adds_ident.bind fun _ => mayAdd_base?.bind fun _ =>
    (adds_expect _).discard.pass fun _ => (mayAdd_many (.map _) _ (adds_bitfield l)).bind fun _ =>
    (adds_expect _).discard.pass fun _ => .spanned fun _ => rfl

theorem adds_caseLabel (l : Level) : Adds (caseLabel l) fun c => [c.tree] := by
  refine .of fun _ _ _ => (mayAdd_eatKeyword _).pass fun _ => .branch ?_ ?_
  · exact (adds_constExpr l).bind fun _ => (adds_expect _).discard.pass fun _ => .pure rfl
  · exact (adds_expectKeyword _).bind fun _ => (adds_expect _).discard.pass fun _ => .pure rfl

/-! Types that hold others. -/

/-- What a union switches on, with the parentheses. -/
def switchType (l : Level) (type : Parser TypeSpec) : Parser (SwitchType TypeSpec) := do
  let start ← expect .leftParen
  let uses ← annotations l
  let ty ← type
  discard (expect .rightParen)
  return ⟨uses, ty, ← spanFrom start⟩

theorem unionBody_eq (l : Level) (type : Parser TypeSpec) (start : Span) (name : Ident) :
    unionBody l type start name = (do
      discard (expectKeyword .switch)
      let discriminant ← switchType l type
      discard (expect .leftBrace)
      let cases ← many atClose (unionCase l type)
      if cases.isEmpty then expected "`case` or `default`"
      discard (expect .rightBrace)
      return ⟨name, discriminant, cases, ← spanFrom start⟩) := by
  simp only [unionBody, switchType, bind_assoc, pure_bind]

section

variable (l : Level) {type : Parser TypeSpec} (types : Adds type TypeSpec.row)

include types

theorem adds_member : Adds (member l type) fun m => [m.tree] :=
  adds_here fun _ => (mayAdd_annotations l).bind fun _ => types.bind fun _ =>
    (adds_declarators l).bind fun _ => (adds_expect _).discard.pass fun _ => .spanned fun _ => rfl

theorem mayAdd_members : MayAdd (members l type) memberRow :=
  mayAdd_many (memberRow_eq ▸ .map _) _ (adds_member l types)

/-- The body of a struct closes the stretch that its keyword began. -/
theorem extends_structBody {start : Span} {name : Ident} :
    Extends start true true [name.tree] (structBody l type start name)
      fun t row => row = (TypeSpec.struct t).row :=
  mayAdd_base?.bind fun _ => (adds_expect _).discard.pass fun _ => (mayAdd_members l types).bind
    fun _ => (adds_expect _).discard.pass fun _ => .spanned fun _ => by rw [TypeSpec.row]; rfl

theorem adds_unionCase : Adds (unionCase l type) fun c => [c.tree] :=
  adds_here fun _ => (mayAdd_many (.map _) _ (adds_caseLabel l)).bind fun _ => .branch .failed
    ((mayAdd_annotations l).bind fun _ => types.bind fun _ => (adds_declarator l).bind fun _ =>
      (adds_expect _).discard.pass fun _ => .spanned fun _ => rfl)

theorem adds_switchType : Adds (switchType l type) fun t => [t.tree] :=
  adds_ofExpect fun _ => (mayAdd_annotations l).bind fun _ => types.bind fun _ =>
    (adds_expect _).discard.pass fun _ => .spanned fun _ => rfl

/-- The body of a union closes the stretch that its keyword began. -/
theorem extends_unionBody {start : Span} {name : Ident} :
    Extends start true true [name.tree] (unionBody l type start name)
      fun t row => row = (TypeSpec.union t).row := by
  have cases' : Gathers caseRow fun c => [c.tree] := caseRow_eq ▸ .map _
  rw [unionBody_eq]
  refine (adds_expectKeyword _).discard.pass fun _ => (adds_switchType l types).bind fun _ =>
    (adds_expect _).discard.pass fun _ => (mayAdd_many cases' _ (adds_unionCase l types)).bind
    fun _ => .branch .failed ((adds_expect _).discard.pass fun _ => .spanned fun _ => ?_)
  rw [TypeSpec.row]
  rfl

end

theorem mayAdd_bound? (l : Level) : MayAdd (bound? l) boundRow := fun _ _ _ =>
  (mayAdd_eat _).pass fun _ => .branch ((adds_constExpr l).may.bind fun _ => .pure rfl)
    (.pure (List.append_nil _).symm)

theorem mayAdd_stringBound? (l : Level) : MayAdd (stringBound? l) boundRow := fun _ _ _ =>
  .test fun _ => .branch ((adds_angled adds_constExpr).may.bind fun _ => .pure rfl)
    (.pure (List.append_nil _).symm)

section

variable (l : Level) {type : Bool → Parser TypeSpec} (types : ∀ b, Adds (type b) TypeSpec.row)

include types

theorem AddsAt.keywordType {s : Cursor} {word : Keyword} (next : s.kind = .keyword word) :
    AddsAt s (keywordType l type word) TypeSpec.row := by
  intro start i pre
  have present : s.rest ≠ [] := Cursor.present_of_kind (by rw [next]; nofun)
  have bump := (AddsAt.bump present).discard
  rw [Grammar.keywordType.eq_def]
  split
  · refine bump.pass fun _ => (adds_angled (f := TypeSpec.row) fun _ => .of fun _ _ _ => ?_).last
    exact (types _).bind fun _ => (mayAdd_bound? _).bind fun _ =>
      .pure (by rw [TypeSpec.row, List.append_assoc])
  · refine bump.pass fun _ => (adds_angled (f := TypeSpec.row) fun _ => .of fun _ _ _ => ?_).last
    exact (types _).bind fun _ => (mayAdd_bound? _).bind fun _ =>
      .pure (by rw [TypeSpec.row, List.append_assoc])
  · refine bump.pass fun _ => (adds_angled (f := TypeSpec.row) fun _ => .of fun _ _ _ => ?_).last
    exact (types _).bind fun _ => (adds_expect _).discard.pass fun _ => (types _).bind fun _ =>
      (mayAdd_bound? _).bind fun _ =>
      .pure (by rw [TypeSpec.row, List.append_assoc, List.append_assoc, List.append_assoc])
  · exact bump.pass fun _ => (mayAdd_stringBound? _).bind fun _ => .pure (by rw [TypeSpec.row])
  · exact bump.pass fun _ => (mayAdd_stringBound? _).bind fun _ => .pure (by rw [TypeSpec.row])
  · refine bump.pass fun _ => .test fun _ => .branch
      (adds_angled (f := TypeSpec.row) fun _ => .of fun _ _ _ => ?_).last
      (.pure (by rw [TypeSpec.row, List.append_nil]))
    exact (adds_constExpr _).bind fun _ => (adds_expect _).discard.pass fun _ =>
      (adds_constExpr _).bind fun _ => .pure (by rw [TypeSpec.row, List.append_assoc]; rfl)
  · exact ((takesOne_bump present).opens (f := TypeSpec.row) fun _ => adds_ident.bind fun _ s =>
      ExtendsAt.bind (extends_structBody l (types _) s) fun _ _ eq => .pure eq).last
  · exact ((takesOne_bump present).opens (f := TypeSpec.row) fun _ => adds_ident.bind fun _ s =>
      ExtendsAt.bind (extends_unionBody l (types _) s) fun _ _ eq => .pure eq).last
  · exact (adds_enumType l s).bind fun _ => .pure (by rw [TypeSpec.row])
  · exact (adds_bitsetType l s).bind fun _ => .pure (by rw [TypeSpec.row])
  · exact (adds_bitmaskType l s).bind fun _ => .pure (by rw [TypeSpec.row])
  · exact .expected _

theorem adds_unprimitive : Adds (unprimitive l type) TypeSpec.row := by
  intro s start i pre
  rw [unprimitive]
  refine .kind ?_
  split
  · exact (adds_scopedName s).bind fun _ => .pure (by rw [TypeSpec.row_named])
  · exact (adds_scopedName s).bind fun _ => .pure (by rw [TypeSpec.row_named])
  · next word next => exact (AddsAt.keywordType l types next).last
  · exact .expected _

theorem adds_typeWith : Adds (typeWith l type) TypeSpec.row := by
  intro s start i pre
  refine .primitive? (fun type => ?_) (adds_unprimitive l types s).last
  cases type with
  | none => exact (adds_unprimitive l types).last
  | some k => exact .pure (by rw [TypeSpec.row, List.append_nil])

end

theorem adds_typeSpecAt (limit left : Nat) (inTemplate : Bool) :
    Adds (typeSpecAt limit left inTemplate) TypeSpec.row := by
  induction left generalizing inTemplate with
  | zero => exact adds_tooDeep _
  | succ left ih => exact adds_typeWith _ ih

theorem adds_typeSpec (l : Level) : Adds (typeSpec l) TypeSpec.row := adds_typeSpecAt _ _ _

end Idl.Grammar
