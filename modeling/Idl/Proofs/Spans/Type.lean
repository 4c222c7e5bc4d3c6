import Idl.Proofs.Lockstep.Type
import Idl.Proofs.Spans.Expr

/-!
Annotations, declarators and types are read with good places. Main statement: `places_typeSpec`.
-/

set_option autoImplicit false

namespace Idl.Grammar

variable {α : Type} {P : Span → Prop} {i j : Bool}

/-! Types that hold no others. -/

/-- What follows a base type that may be there, where nothing is taken if it is not. -/
theorem PlacesAt.primitive? {s : Cursor} {f : Option Primitive → Parser α} {R : α → Prop}
    (taken : ∀ type, Places P true j (f type) R) (none : PlacesAt P i j s (f none) R) :
    PlacesAt P i j s (Grammar.primitive? >>= f) R := by
  rw [Grammar.primitive?, bind_assoc]
  refine .kind ?_
  split
  · next next =>
    refine PlacesAt.bind (Q := fun _ => True) ?_ fun type _ => taken type
    exact (PlacesAt.bump (by rw [next]; decide)).discard.bind fun _ _ =>
      (places_eatKeyword _).seek fun _ _ => .branch (.pure trivial)
        ((places_eatKeyword _).seek fun _ _ => .branch
          ((places_eatKeyword _).seek fun _ _ => .pure trivial) (.expected _))
  · next next =>
    refine PlacesAt.bind (Q := fun _ => True) ?_ fun type _ => taken type
    exact (PlacesAt.bump (by rw [next]; decide)).discard.bind fun _ _ =>
      (places_eatKeyword _).seek fun _ _ => .branch (.pure trivial)
        ((places_eatKeyword _).seek fun _ _ => .pure trivial)
  · next next =>
    split
    · refine PlacesAt.bind (Q := fun _ => True) ?_ fun type _ => taken type
      exact (PlacesAt.bump (by simp [next])).discard.bind fun _ _ => .pure trivial
    · rw [pure_bind]
      exact none
  · rw [pure_bind]
    exact none

theorem places_angled {l : Level} {args : Level → Parser α} {Q : α → Prop}
    (inner : ∀ l, Places P true true (args l) Q) : Places P i true (angled l args) Q :=
  (places_expect _).discard.bind fun _ _ => (inner _).bind fun _ holds =>
    (places_expect _).discard.bind fun _ _ => .pure holds

section

variable (join : ∀ a b, P a → P b → P (a.join b))

include join

/-! Annotations and declarators. -/

theorem places_annotationName : Places P i true annotationName fun _ => True := by
  intro s
  refine .kind ?_
  split
  · next word next => exact (PlacesAt.bump (by rw [next]; nofun)).bind fun _ _ => .pure trivial
  · exact (places_scopedName join s).weaken fun _ _ => trivial

theorem places_annotationArgs (l : Level) :
    Places P i i (annotationArgs l) (AnnotationArgs.Placed P) := by
  refine .test fun _ => .branch (.pure trivial) (.test fun _ => .branch ?_ ?_)
  · refine (places_commaList (Q := fun p : Ident × ConstExpr => p.2.Placed P) fun _ =>
      places_ident.bind fun _ _ => (places_expect _).discard.bind fun _ _ =>
      (places_constExpr join _).bind fun _ placed => .pure placed).keep.seek fun _ all => .pure all
  · exact (places_constExpr join _).keep.seek fun _ placed => .pure placed

theorem places_annotationUse (l : Level) :
    Places P i true (annotationUse l) (AnnotationUse.Placed P) :=
  (places_expect _).bind fun _ start => (places_annotationName join).bind fun _ _ =>
    (places_eat _).seek fun _ _ => .branch
      ((places_annotationArgs join _).seek fun _ args => (places_expect _).discard.bind fun _ _ =>
        .spanned join start fun _ span => ⟨args, span⟩)
      (.spanned join start fun _ span => ⟨trivial, span⟩)

theorem places_annotations (l : Level) :
    Places P i i (annotations l) fun as => ∀ a ∈ as, a.Placed P :=
  places_many _ (places_annotationUse join l).keep

theorem places_declarator (l : Level) : Places P i true (declarator l) (Declarator.Placed P) :=
  places_ident.bind fun _ name => (places_many _ ((places_expect _).discard.bind fun _ _ =>
    (places_constExpr join _).bind fun _ placed => (places_expect _).discard.bind fun _ _ =>
    .pure placed).keep).bind fun _ dims => .pure ⟨name, dims⟩

theorem places_declarators (l : Level) :
    Places P i true (declarators l) fun ds => ∀ d ∈ ds, d.Placed P :=
  places_commaList fun _ => places_declarator join l

theorem places_base? : Places P i i base? fun b => ∀ t ∈ b, t.Placed P :=
  (places_eat _).seek fun _ _ => .branch
    ((places_scopedName join).keep.seek fun _ place => .pure fun _ mem =>
      Option.some.inj mem ▸ place)
    (.pure nofun)

theorem places_enumerators (l : Level) :
    Places P i true (enumerators l) fun vs => ∀ v ∈ vs, v.Placed P :=
  (places_expect _).discard.bind fun _ _ => (places_commaList fun _ =>
    (places_annotations join l).seek fun _ as => places_ident.bind fun _ name =>
    .pure ⟨as, name⟩).bind fun _ all => (places_expect _).discard.bind fun _ _ => .pure all

theorem places_enumType (l : Level) : Places P i true (enumType l) (EnumType.Placed P) :=
  (places_expectKeyword _).bind fun _ start => places_ident.bind fun _ name =>
    (places_enumerators join l).bind fun _ all => .spanned join start fun _ _ => ⟨name, all⟩

theorem places_bitmaskType (l : Level) : Places P i true (bitmaskType l) (BitmaskType.Placed P) :=
  (places_expectKeyword _).bind fun _ start => places_ident.bind fun _ name =>
    (places_enumerators join l).bind fun _ all => .spanned join start fun _ _ => ⟨name, all⟩

theorem places_bitfieldArgs (l : Level) :
    Places P i true (bitfieldArgs l) fun r => r.1.Placed P := by
  refine (places_constExpr join _).bind fun _ placed => (places_eat _).seek fun _ _ =>
    .branch (fun s => .primitive? (fun type => ?_) (.expected _)) (.pure placed)
  cases type with
  | none => exact .expected _
  | some k => exact .branch (.pure placed) (.expected _)

theorem places_bitfield (l : Level) : Places P i true (bitfield l) (Bitfield.Placed P) := by
  refine .here fun _ start => (places_annotations join l).seek fun _ as =>
    (places_expectKeyword _).discard.bind fun _ _ =>
    (places_angled fun l => places_bitfieldArgs join l).bind fun args width => ?_
  obtain ⟨e, type⟩ := args
  refine .test fun _ => .branch ?_ ?_
  · exact (Places.pure (Q := fun ns => ∀ n ∈ ns, Ident.Placed P n) (by simp)).bind fun _ names =>
      (places_expect _).discard.bind fun _ _ => .spanned join start fun _ _ => ⟨as, width, names⟩
  · exact (places_commaList fun _ => places_ident).bind fun _ names =>
      (places_expect _).discard.bind fun _ _ => .spanned join start fun _ _ => ⟨as, width, names⟩

theorem places_bitsetType (l : Level) : Places P i true (bitsetType l) (BitsetType.Placed P) :=
  (places_expectKeyword _).bind fun _ start => places_ident.bind fun _ name =>
    (places_base? join).bind fun _ base => (places_expect _).discard.bind fun _ _ =>
    (places_many _ (places_bitfield join l)).bind fun _ fields =>
    (places_expect _).discard.bind fun _ _ => .spanned join start fun _ _ => ⟨name, base, fields⟩

theorem places_caseLabel (l : Level) : Places P i true (caseLabel l) (CaseLabel.Placed P) :=
  (places_eatKeyword _).seek fun _ _ => .branch
    ((places_constExpr join _).bind fun _ placed => (places_expect _).discard.bind fun _ _ =>
      .pure placed)
    ((places_expectKeyword _).bind fun _ place => (places_expect _).discard.bind fun _ _ =>
      .pure place)

/-! Types that hold others. -/

section

variable (l : Level) {type : Parser TypeSpec}
  (types : ∀ i, Places P i true type (TypeSpec.Placed P))

include types

theorem places_member : Places P i true (member l type) (Member.Placed P) :=
  .here fun _ start => (places_annotations join l).seek fun _ as => (types _).bind fun _ τ =>
    (places_declarators join l).bind fun _ ds => (places_expect _).discard.bind fun _ _ =>
    .spanned join start fun _ _ => ⟨as, τ, ds⟩

theorem places_members : Places P i i (members l type) (membersPlaced P) :=
  (places_many _ (places_member join l types).keep).weaken fun _ all =>
    (membersPlaced_iff _).mpr all

theorem places_structBody {start : Span} (place : P start) {name : Ident} (named : name.Placed P) :
    Places P i true (structBody l type start name) fun t => (TypeSpec.struct t).Placed P := by
  refine (places_base? join).seek fun _ base => (places_expect _).discard.bind fun _ _ =>
    (places_members join l types).bind fun _ fields => (places_expect _).discard.bind fun _ _ =>
    .spanned join place fun _ _ => ?_
  rw [TypeSpec.Placed]
  exact ⟨named, base, fields⟩

theorem places_unionCase : Places P i true (unionCase l type) (UnionCase.Placed P) :=
  .here fun _ start => (places_many _ (places_caseLabel join l).keep).seek fun _ labels =>
    .branch .failed ((places_annotations join l).seek fun _ as => (types _).bind fun _ τ =>
      (places_declarator join l).bind fun _ d => (places_expect _).discard.bind fun _ _ =>
      .spanned join start fun _ _ => ⟨labels, as, τ, d⟩)

theorem places_unionBody {start : Span} (place : P start) {name : Ident} (named : name.Placed P) :
    Places P i true (unionBody l type start name) fun t => (TypeSpec.union t).Placed P := by
  refine (places_expectKeyword _).discard.bind fun _ _ => (places_expect _).bind fun _ switch =>
    (places_annotations join l).bind fun _ as => (types _).bind fun _ τ =>
    (places_expect _).discard.bind fun _ _ => .spanFrom join switch fun _ span =>
    (places_expect _).discard.bind fun _ _ =>
    (places_many _ (places_unionCase join l types)).bind fun _ cases => .branch .failed
    ((places_expect _).discard.bind fun _ _ => .spanned join place fun _ _ => ?_)
  rw [TypeSpec.Placed]
  exact ⟨named, as, τ, span, (casesPlaced_iff _).mpr cases⟩

end

theorem places_bound? (l : Level) : Places P i i (bound? l) fun b => ∀ e ∈ b, e.Placed P :=
  (places_eat _).seek fun _ _ => .branch
    ((places_constExpr join _).keep.seek fun _ placed => .pure fun _ mem =>
      Option.some.inj mem ▸ placed)
    (.pure nofun)

theorem places_stringBound? (l : Level) :
    Places P i i (stringBound? l) fun b => ∀ e ∈ b, e.Placed P :=
  .test fun _ => .branch
    ((places_angled fun _ => places_constExpr join _).keep.seek fun _ placed => .pure fun _ mem =>
      Option.some.inj mem ▸ placed)
    (.pure nofun)

section

variable (l : Level) {type : Bool → Parser TypeSpec}
  (types : ∀ b i, Places P i true (type b) (TypeSpec.Placed P))

include types

theorem PlacesAt.keywordType {s : Cursor} {word : Keyword} (next : s.kind = .keyword word) :
    PlacesAt P i true s (keywordType l type word) (TypeSpec.Placed P) := by
  have bump : PlacesAt P i true s Grammar.bump fun t => P t.span := .bump (by rw [next]; nofun)
  rw [Grammar.keywordType.eq_def]
  split
  · refine bump.discard.bind fun _ _ => places_angled fun _ => (types _ _).bind fun _ τ =>
      (places_bound? join _).bind fun _ bound => .pure ?_
    rw [TypeSpec.Placed]
    exact ⟨τ, bound⟩
  · refine bump.discard.bind fun _ _ => places_angled fun _ => (types _ _).bind fun _ τ =>
      (places_bound? join _).bind fun _ bound => .pure ?_
    rw [TypeSpec.Placed]
    exact ⟨τ, bound⟩
  · refine bump.discard.bind fun _ _ => places_angled fun _ => (types _ _).bind fun _ key =>
      (places_expect _).discard.bind fun _ _ => (types _ _).bind fun _ value =>
      (places_bound? join _).bind fun _ bound => .pure ?_
    rw [TypeSpec.Placed]
    exact ⟨key, value, bound⟩
  · refine bump.discard.bind fun _ _ => (places_stringBound? join _).bind fun _ bound => .pure ?_
    rw [TypeSpec.Placed]
    exact bound
  · refine bump.discard.bind fun _ _ => (places_stringBound? join _).bind fun _ bound => .pure ?_
    rw [TypeSpec.Placed]
    exact bound
  · refine bump.discard.bind fun _ _ => .test fun _ => .branch
      (places_angled fun _ => (places_constExpr join _).bind fun _ digits =>
        (places_expect _).discard.bind fun _ _ => (places_constExpr join _).bind fun _ scale =>
        .pure ?_)
      (.pure ?_)
    · rw [TypeSpec.Placed]
      exact ⟨digits, scale⟩
    · rw [TypeSpec.Placed]
      trivial
  · exact bump.bind fun _ start => places_ident.bind fun _ name =>
      (places_structBody join l (types _) start name).bind fun _ placed => .pure placed
  · exact bump.bind fun _ start => places_ident.bind fun _ name =>
      (places_unionBody join l (types _) start name).bind fun _ placed => .pure placed
  · refine (places_enumType join l s).bind fun _ placed => .pure ?_
    rwa [TypeSpec.Placed]
  · refine (places_bitsetType join l s).bind fun _ placed => .pure ?_
    rwa [TypeSpec.Placed]
  · refine (places_bitmaskType join l s).bind fun _ placed => .pure ?_
    rwa [TypeSpec.Placed]
  · exact .expected _

theorem places_unprimitive (i : Bool) :
    Places P i true (unprimitive l type) (TypeSpec.Placed P) := by
  intro s
  rw [unprimitive]
  refine .kind ?_
  split
  · refine (places_scopedName join s).bind fun _ place => .pure ?_
    rwa [TypeSpec.Placed]
  · refine (places_scopedName join s).bind fun _ place => .pure ?_
    rwa [TypeSpec.Placed]
  · next word next => exact .keywordType join l types next
  · exact .expected _

theorem places_typeWith : Places P i true (typeWith l type) (TypeSpec.Placed P) := by
  intro s
  refine .primitive? (fun type => ?_) (places_unprimitive join l types i s)
  cases type with
  | none => exact places_unprimitive join l types _
  | some k => exact .pure (by rw [TypeSpec.Placed]; trivial)

end

theorem places_typeSpecAt (limit left : Nat) (inTemplate : Bool) (i : Bool) :
    Places P i true (typeSpecAt limit left inTemplate) (TypeSpec.Placed P) := by
  induction left generalizing inTemplate i with
  | zero => exact .tooDeep _
  | succ left ih => exact places_typeWith join _ fun b i => ih b i

theorem places_typeSpec (l : Level) (i : Bool) :
    Places P i true (typeSpec l) (TypeSpec.Placed P) := places_typeSpecAt join _ _ _ i

end

end Idl.Grammar
