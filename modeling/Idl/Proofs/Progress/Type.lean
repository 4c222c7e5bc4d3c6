import Idl.Proofs.Lockstep.Type
import Idl.Proofs.Progress.Expr

/-!
Annotations, declarators and types take tokens, and they nest no deeper than they may. Main
statement: `spends_typeSpec`.
-/

set_option autoImplicit false

namespace Idl.Grammar

variable {α : Type} {i j : Bool}

/-! Types that hold no others. -/

/-- What follows a base type that may be there, where nothing is taken if it is not. -/
theorem SpendsAt.primitive? {s : Cursor} {f : Option Primitive → Parser α} {R : α → Prop}
    (taken : ∀ type, Spends true j (f type) R) (none : SpendsAt i j s (f none) R) :
    SpendsAt i j s (Grammar.primitive? >>= f) R := by
  rw [Grammar.primitive?, bind_assoc]
  refine .kind ?_
  split
  · next next =>
    refine SpendsAt.bind (Q := fun _ => True) ?_ fun type _ => taken type
    exact (SpendsAt.bump (by rw [next]; decide)).discard.bind fun _ _ =>
      (spends_eatKeyword _).seek fun _ _ => .branch (.pure trivial)
        ((spends_eatKeyword _).seek fun _ _ => .branch
          ((spends_eatKeyword _).seek fun _ _ => .pure trivial) (.expected _))
  · next next =>
    refine SpendsAt.bind (Q := fun _ => True) ?_ fun type _ => taken type
    exact (SpendsAt.bump (by rw [next]; decide)).discard.bind fun _ _ =>
      (spends_eatKeyword _).seek fun _ _ => .branch (.pure trivial)
        ((spends_eatKeyword _).seek fun _ _ => .pure trivial)
  · next next =>
    split
    · refine SpendsAt.bind (Q := fun _ => True) ?_ fun type _ => taken type
      exact (SpendsAt.bump (by simp [next])).discard.bind fun _ _ => .pure trivial
    · rw [pure_bind]
      exact none
  · rw [pure_bind]
    exact none

theorem spends_angled {l : Level} {args : Level → Parser α} {Q : α → Prop}
    (inner : Spends true true (args { l with inTemplate := true }) Q) :
    Spends i true (angled l args) Q :=
  (spends_expect _).discard.bind fun _ _ => inner.bind fun _ holds =>
    (spends_expect _).discard.bind fun _ _ => .pure holds

/-! Annotations and declarators. -/

theorem spends_annotationName : Spends i true annotationName fun _ => True := by
  intro s
  refine .kind ?_
  split
  · next word next => exact (SpendsAt.bump (by rw [next]; nofun)).bind fun _ _ => .pure trivial
  · exact spends_scopedName s

theorem spends_annotationArgs (l : Level) :
    Spends i i (annotationArgs l) fun a => a.outline.Within l.left := by
  refine .test fun _ => .branch (.pure trivial) (.test fun _ => .branch ?_ ?_)
  · refine (spends_commaList (Q := fun p : Ident × ConstExpr => (Outline.expr p.2).Within l.left)
      fun _ => spends_ident.bind fun _ _ => (spends_expect _).discard.bind fun _ _ =>
      (spends_constExpr l).bind fun _ value => .pure value).keep.seek fun _ all =>
      .pure (Outline.within_map.mpr all)
  · exact (spends_constExpr l).keep.seek fun _ value => .pure value

theorem spends_annotationUse (l : Level) :
    Spends i true (annotationUse l) fun a => a.outline.Within l.left :=
  (spends_expect _).bind fun _ _ => spends_annotationName.bind fun _ _ =>
    (spends_eat _).seek fun _ _ => .branch
      ((spends_annotationArgs { l with inTemplate := false }).seek fun _ args =>
        (spends_expect _).discard.bind fun _ _ => .spanned fun _ => args)
      (.spanned fun _ => trivial)

theorem spends_annotations (l : Level) :
    Spends i i (annotations l) fun uses => (usesOutline uses).Within l.left :=
  (spends_many _ (spends_annotationUse l)).weaken fun _ => Outline.within_map.mpr

theorem spends_declarator (l : Level) :
    Spends i true (declarator l) fun d => d.outline.Within l.left :=
  spends_ident.bind fun _ _ =>
    (spends_many (Q := fun e => (Outline.expr e).Within l.left) _
      ((spends_expect _).discard.bind fun _ _ => (spends_constExpr l).bind fun _ dim =>
      (spends_expect _).discard.bind fun _ _ => .pure dim)).bind fun _ dims =>
    .pure (Outline.within_map.mpr dims)

theorem spends_declarators (l : Level) :
    Spends i true (declarators l) fun ds => (declaratorsOutline ds).Within l.left :=
  (spends_commaList fun _ => spends_declarator l).weaken fun _ => Outline.within_map.mpr

theorem spends_base? : Spends i i base? fun _ => True :=
  (spends_eat _).seek fun _ _ => .branch
    (spends_scopedName.keep.seek fun _ _ => .pure trivial) (.pure trivial)

theorem spends_enumerators (l : Level) :
    Spends i true (enumerators l) fun vs => (enumeratorsOutline vs).Within l.left :=
  (spends_expect _).discard.bind fun _ _ =>
    (spends_commaList (Q := fun v : Enumerator => (usesOutline v.annotations).Within l.left)
      fun _ => (spends_annotations l).seek fun _ uses => spends_ident.bind fun _ _ =>
      .pure uses).bind fun _ all => (spends_expect _).discard.bind fun _ _ =>
    .pure (Outline.within_map.mpr all)

theorem spends_enumType (l : Level) :
    Spends i true (enumType l) fun t => (enumeratorsOutline t.enumerators).Within l.left :=
  (spends_expectKeyword _).bind fun _ _ => spends_ident.bind fun _ _ =>
    (spends_enumerators l).bind fun _ values => .spanned fun _ => values

theorem spends_bitmaskType (l : Level) :
    Spends i true (bitmaskType l) fun t => (enumeratorsOutline t.values).Within l.left :=
  (spends_expectKeyword _).bind fun _ _ => spends_ident.bind fun _ _ =>
    (spends_enumerators l).bind fun _ values => .spanned fun _ => values

theorem spends_bitfieldArgs (l : Level) :
    Spends i true (bitfieldArgs l) fun r => (Outline.expr r.1).Within l.left := by
  refine (spends_constExpr l).bind fun _ width => (spends_eat _).seek fun _ _ =>
    .branch (fun s => .primitive? (fun type => ?_) (.expected _)) (.pure width)
  cases type with
  | none => exact .expected _
  | some k => exact .branch (.pure width) (.expected _)

theorem spends_bitfield (l : Level) :
    Spends i true (bitfield l) fun f => f.outline.Within l.left := by
  refine .here fun _ => (spends_annotations l).seek fun _ uses =>
    (spends_expectKeyword _).discard.bind fun _ _ =>
    (spends_angled (spends_bitfieldArgs _)).bind fun args width => ?_
  obtain ⟨e, type⟩ := args
  refine .test fun _ => .branch ?_ ?_
  · exact .given ((spends_expect _).discard.bind fun _ _ => .spanned fun _ => ⟨uses, width⟩)
  · exact (spends_commaList fun _ => spends_ident).bind fun _ _ =>
      (spends_expect _).discard.bind fun _ _ => .spanned fun _ => ⟨uses, width⟩

theorem spends_bitsetType (l : Level) :
    Spends i true (bitsetType l) fun t => t.outline.Within l.left :=
  (spends_expectKeyword _).bind fun _ _ => spends_ident.bind fun _ _ =>
    spends_base?.bind fun _ _ => (spends_expect _).discard.bind fun _ _ =>
    (spends_many _ (spends_bitfield l)).bind fun _ fields =>
    (spends_expect _).discard.bind fun _ _ => .spanned fun _ => Outline.within_map.mpr fields

theorem spends_caseLabel (l : Level) :
    Spends i true (caseLabel l) fun label => label.outline.Within l.left :=
  (spends_eatKeyword _).seek fun _ _ => .branch
    ((spends_constExpr l).bind fun _ value => (spends_expect _).discard.bind fun _ _ =>
      .pure value)
    ((spends_expectKeyword _).bind fun _ _ => (spends_expect _).discard.bind fun _ _ =>
      .pure trivial)

/-! Types that hold others. -/

section

variable (l : Level) {type : Parser TypeSpec}
  (types : ∀ i, Spends i true type fun t => t.outline.Within l.left)

include types

theorem spends_member : Spends i true (member l type) fun m => m.outline.Within l.left :=
  .here fun _ => (spends_annotations l).seek fun _ uses => (types _).bind fun _ τ =>
    (spends_declarators l).bind fun _ ds => (spends_expect _).discard.bind fun _ _ =>
    .spanned fun _ => ⟨uses, τ, ds⟩

theorem spends_members :
    Spends i i (members l type) fun ms => (memberOutlines ms).Within l.left :=
  (spends_many _ (spends_member l types)).weaken fun _ => within_memberOutlines.mpr

theorem spends_structBody (start : Span) (name : Ident) :
    Spends i true (structBody l type start name) fun t =>
      (memberOutlines t.members).Within l.left :=
  spends_base?.seek fun _ _ => (spends_expect _).discard.bind fun _ _ =>
    (spends_members l types).bind fun _ fields => (spends_expect _).discard.bind fun _ _ =>
    .spanned fun _ => fields

theorem spends_unionCase :
    Spends i true (unionCase l type) fun c => c.outline.Within l.left :=
  .here fun _ => (spends_many _ (spends_caseLabel l)).seek fun _ labels =>
    .branch .failed ((spends_annotations l).seek fun _ uses => (types _).bind fun _ τ =>
      (spends_declarator l).bind fun _ d => (spends_expect _).discard.bind fun _ _ =>
      .spanned fun _ => ⟨Outline.within_map.mpr labels, uses, τ, d⟩)

theorem spends_unionBody (start : Span) (name : Ident) :
    Spends i true (unionBody l type start name) fun t => t.outline.Within l.left :=
  (spends_expectKeyword _).discard.bind fun _ _ => (spends_expect _).bind fun _ _ =>
    (spends_annotations l).bind fun _ uses => (types _).bind fun _ τ =>
    (spends_expect _).discard.bind fun _ _ => .spanFrom fun _ =>
    (spends_expect _).discard.bind fun _ _ =>
    (spends_many _ (spends_unionCase l types)).bind fun _ cases => .branch .failed
    ((spends_expect _).discard.bind fun _ _ => .spanned fun _ =>
      ⟨uses, τ, within_caseOutlines.mpr cases⟩)

end

theorem spends_bound? (l : Level) :
    Spends i i (bound? l) fun b => (boundOutline b).Within l.left :=
  (spends_eat _).seek fun _ _ => .branch
    ((spends_constExpr l).keep.seek fun _ bound => .pure bound) (.pure trivial)

theorem spends_stringBound? (l : Level) :
    Spends i i (stringBound? l) fun b => (boundOutline b).Within l.left :=
  .test fun _ => .branch
    ((spends_angled (spends_constExpr { l with inTemplate := true })).keep.seek fun _ bound =>
      .pure bound)
    (.pure trivial)

section

variable (l : Level) {type : Bool → Parser TypeSpec}
  (types : ∀ b i, Spends i true (type b) fun t => t.outline.Within l.left)

include types

theorem SpendsAt.keywordType {s : Cursor} {word : Keyword} (next : s.kind = .keyword word) :
    SpendsAt i true s (keywordType l type word) fun t => t.outline.Within (l.left + 1) := by
  have bump : SpendsAt i true s Grammar.bump fun _ => True := .bump (by rw [next]; nofun)
  rw [Grammar.keywordType.eq_def]
  split
  · refine bump.discard.bind fun _ _ => spends_angled ((types _ _).bind fun _ τ =>
      (spends_bound? _).bind fun _ bound => .pure ?_)
    rw [TypeSpec.outline]
    exact ⟨τ, bound⟩
  · refine bump.discard.bind fun _ _ => spends_angled ((types _ _).bind fun _ τ =>
      (spends_bound? _).bind fun _ bound => .pure ?_)
    rw [TypeSpec.outline]
    exact ⟨τ, bound⟩
  · refine bump.discard.bind fun _ _ => spends_angled ((types _ _).bind fun _ key =>
      (spends_expect _).discard.bind fun _ _ => (types _ _).bind fun _ value =>
      (spends_bound? _).bind fun _ bound => .pure ?_)
    rw [TypeSpec.outline]
    exact ⟨key, value, bound⟩
  · refine bump.discard.bind fun _ _ => (spends_stringBound? l).bind fun _ bound => .pure ?_
    rw [TypeSpec.outline]
    exact bound
  · refine bump.discard.bind fun _ _ => (spends_stringBound? l).bind fun _ bound => .pure ?_
    rw [TypeSpec.outline]
    exact bound
  · refine bump.discard.bind fun _ _ => .test fun _ => .branch
      (spends_angled ((spends_constExpr _).bind fun _ digits =>
        (spends_expect _).discard.bind fun _ _ => (spends_constExpr _).bind fun _ scale =>
        .pure ?_))
      (.pure ?_)
    · rw [TypeSpec.outline]
      exact ⟨digits, scale⟩
    · rw [TypeSpec.outline]
      trivial
  · refine bump.bind fun _ _ => spends_ident.bind fun _ _ =>
      (spends_structBody l (types _) _ _).bind fun _ fields => .pure ?_
    rw [TypeSpec.outline]
    exact fields
  · refine bump.bind fun _ _ => spends_ident.bind fun _ _ =>
      (spends_unionBody l (types _) _ _).bind fun _ cases => .pure ?_
    rw [TypeSpec.outline]
    exact cases
  · refine (spends_enumType l s).bind fun _ values => .pure ?_
    rw [TypeSpec.outline]
    exact values
  · refine (spends_bitsetType l s).bind fun _ fields => .pure ?_
    rw [TypeSpec.outline]
    exact fields
  · refine (spends_bitmaskType l s).bind fun _ values => .pure ?_
    rw [TypeSpec.outline]
    exact values
  · exact .expected _

theorem spends_unprimitive (i : Bool) :
    Spends i true (unprimitive l type) fun t => t.outline.Within (l.left + 1) := by
  intro s
  rw [unprimitive]
  refine .kind ?_
  split
  · refine (spends_scopedName s).bind fun _ _ => .pure ?_
    rw [TypeSpec.outline]
    trivial
  · refine (spends_scopedName s).bind fun _ _ => .pure ?_
    rw [TypeSpec.outline]
    trivial
  · next word next => exact .keywordType l types next
  · exact .expected _

theorem spends_typeWith :
    Spends i true (typeWith l type) fun t => t.outline.Within (l.left + 1) := by
  intro s
  refine .primitive? (fun type => ?_) (spends_unprimitive l types i s)
  cases type with
  | none => exact spends_unprimitive l types _
  | some k => exact .pure (by rw [TypeSpec.outline]; trivial)

end

theorem spends_typeSpecAt (limit left : Nat) (inTemplate : Bool) (i : Bool) :
    Spends i true (typeSpecAt limit left inTemplate) fun t => t.outline.Within left := by
  induction left generalizing inTemplate i with
  | zero => exact .tooDeep _
  | succ left ih => exact spends_typeWith ⟨limit, left, inTemplate⟩ fun b i => ih b i

theorem spends_typeSpec (l : Level) (i : Bool) :
    Spends i true (typeSpec l) fun t => t.outline.Within l.left := spends_typeSpecAt _ _ _ i

end Idl.Grammar
