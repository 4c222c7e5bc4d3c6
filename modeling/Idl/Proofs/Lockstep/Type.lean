import Idl.Grammar.Export
import Idl.Proofs.Lockstep.Expr

/-!
Annotations, declarators and types in lockstep. Main statement: `lockstep_typeSpec`.
-/

set_option autoImplicit false

namespace Idl.Grammar

variable {α : Type} {m : Terms} {i j : Stage}

/-- Both readers take the same branch. -/
theorem Lockstep.branch {b : Bool} {p p' q q' : Parser α} (yes : Lockstep m i j p p')
    (no : Lockstep m i j q q') : Lockstep m i j (if b then p else q) (if b then p' else q') := by
  cases b with
  | true => exact yes
  | false => exact no

/-! Annotations. -/

theorem respects_atAnnotationDecl : Respects atAnnotationDecl := by
  intro s t ahead
  rw [atAnnotationDecl, atAnnotationDecl, ahead.at?]
  cases first : s.at? .atSign with
  | false => rfl
  | true =>
    have semi : s.kind ≠ .punct .semi := by rw [Cursor.at?_iff.mp first]; decide
    rw [ahead.second semi]
    cases second : (s.nth 1).kind == .ident with
    | false => rfl
    | true =>
      have semi' : (s.nth 1).kind ≠ .punct .semi := by rw [beq_iff_eq.mp second]; decide
      have third : t.nth 2 = s.nth 2 := ahead.nth fun k small => by
        match k, small with
        | 0, _ => exact semi
        | 1, _ => exact semi'
      rw [third]
      cases ident : (s.nth 2).kind == .ident with
      | false => simp
      | true =>
        have semi'' : (s.nth 2).kind ≠ .punct .semi := by rw [beq_iff_eq.mp ident]; decide
        have fourth : t.nth 3 = s.nth 3 := ahead.nth fun k small => by
          match k, small with
          | 0, _ => exact semi
          | 1, _ => exact semi'
          | 2, _ => exact semi''
        rw [fourth]

theorem lockstep_annotationName : Lockstep m i i.take annotationName annotationName := by
  intro base s t
  refine .kind ?_
  split
  · next word next =>
    exact (LockstepAt.bump (by rw [next]; exact .keyword word)).bind fun _ => .pure _
  · exact lockstep_scopedName base s t

section

variable {l l' : Level} (fits : Fits m l l')

include fits

theorem lockstep_annotationArgs :
    Lockstep m i i (annotationArgs l) (annotationArgs l') := by
  have named : Respects fun s => s.kind == .ident && (s.nth 1).kind == .punct .equals := by
    intro s t ahead
    dsimp only
    rw [ahead.kind]
    cases ident : s.kind == .ident with
    | false => rfl
    | true => rw [ahead.second (by rw [beq_iff_eq.mp ident]; decide)]
  refine .test (respects_at? _) fun _ => .branch (.pure _) (.test named fun _ => .branch ?_ ?_)
  · exact (Lockstep.commaList fun _ => lockstep_ident.bind fun _ =>
      (lockstep_expect (by decide)).discard.bind fun _ => (lockstep_constExpr fits).bind fun _ =>
      .pure _).keep.bind fun _ => .pure _
  · exact (lockstep_constExpr fits).keep.bind fun _ => .pure _

theorem lockstep_annotationUse : Lockstep m i i.take (annotationUse l) (annotationUse l') :=
  (lockstep_expect (by decide)).bind fun _ => lockstep_annotationName.bind fun _ =>
    (lockstep_eat (by decide)).bind fun _ => .branch
      ((lockstep_annotationArgs (fits.inside false)).bind fun _ =>
        (lockstep_expect (by decide)).discard.bind fun _ => .spanned)
      .spanned

theorem lockstep_annotations : Lockstep m i i (annotations l) (annotations l') :=
  .many (fun _ _ ahead => by rw [ahead.at?, respects_atAnnotationDecl ahead])
    (lockstep_annotationUse fits)

/-! Declarators. -/

theorem lockstep_declarator : Lockstep m i i.take (declarator l) (declarator l') :=
  lockstep_ident.bind fun _ => (Lockstep.many (respects_at? _).not
    ((lockstep_expect (by decide)).discard.bind fun _ => (lockstep_constExpr fits).bind fun _ =>
      (lockstep_expect (by decide)).discard.bind fun _ => .pure _)).bind fun _ => .pure _

theorem lockstep_declarators : Lockstep m i i.take (declarators l) (declarators l') :=
  .commaList fun _ => lockstep_declarator fits

end

/-! Types that hold no others. -/

/-- What follows a base type that may be there, where nothing is taken if it is not. -/
theorem LockstepAt.primitive? {base : Nat} {s t : Cursor} {f g : Option Primitive → Parser α}
    (taken : ∀ type, Lockstep m i.take j (f type) (g type))
    (none : LockstepAt m base i j s t (f none) (g none)) :
    LockstepAt m base i j s t (Grammar.primitive? >>= f) (Grammar.primitive? >>= g) := by
  rw [Grammar.primitive?, bind_assoc, bind_assoc]
  refine .kind ?_
  split
  · next next =>
    refine LockstepAt.bind ?_ taken
    exact (LockstepAt.bump (by rw [next]; decide)).map.bind fun _ =>
      (lockstep_eatKeyword _).bind fun _ => .branch (.pure _)
        ((lockstep_eatKeyword _).bind fun _ => .branch
          ((lockstep_eatKeyword _).bind fun _ => .pure _) (.expected _))
  · next next =>
    refine LockstepAt.bind ?_ taken
    exact (LockstepAt.bump (by rw [next]; decide)).map.bind fun _ =>
      (lockstep_eatKeyword _).bind fun _ => .branch (.pure _)
        ((lockstep_eatKeyword _).bind fun _ => .pure _)
  · next next =>
    split
    · refine LockstepAt.bind ?_ taken
      exact (LockstepAt.bump (by rw [next]; exact .keyword _)).map.bind fun _ => .pure _
    · rw [pure_bind, pure_bind]
      exact none
  · rw [pure_bind, pure_bind]
    exact none

theorem lockstep_base? : Lockstep m i i base? base? :=
  (lockstep_eat (by decide)).bind fun _ => .branch
    (lockstep_scopedName.keep.bind fun _ => .pure _) (.pure _)

theorem lockstep_angled {l l' : Level} (fits : Fits m l l') {args args' : Level → Parser α}
    (inner : ∀ {l l'}, Fits m l l' → ∀ {j}, Lockstep m j j (args l) (args' l')) :
    Lockstep m i i.take (angled l args) (angled l' args') :=
  (lockstep_expect (by decide)).discard.bind fun _ => (inner (fits.inside true)).bind fun _ =>
    (lockstep_expect (by decide)).discard.bind fun _ => .pure _

section

variable {l l' : Level} (fits : Fits m l l')

include fits

theorem lockstep_enumerators : Lockstep m i i.take (enumerators l) (enumerators l') :=
  lockstep_leftBrace.discard.bind fun _ =>
    (Lockstep.commaList fun _ => (lockstep_annotations fits).bind fun _ =>
      lockstep_ident.bind fun _ => .pure _).bind fun _ =>
    lockstep_rightBrace.discard.bind fun _ => .pure _

theorem lockstep_enumType : Lockstep m i i.take (enumType l) (enumType l') :=
  (lockstep_expectKeyword _).bind fun _ => lockstep_ident.bind fun _ =>
    (lockstep_enumerators fits).bind fun _ => .spanned

theorem lockstep_bitmaskType : Lockstep m i i.take (bitmaskType l) (bitmaskType l') :=
  (lockstep_expectKeyword _).bind fun _ => lockstep_ident.bind fun _ =>
    (lockstep_enumerators fits).bind fun _ => .spanned

theorem lockstep_bitfieldArgs : Lockstep m i i.take (bitfieldArgs l) (bitfieldArgs l') := by
  refine (lockstep_constExpr fits).bind fun _ => (lockstep_eat (by decide)).bind fun _ =>
    .branch (fun base s t => .primitive? (fun type => ?_) (Lockstep.expected _ base s t)) (.pure _)
  cases type with
  | none => exact .expected _
  | some k => exact .branch (.pure _) (.expected _)

theorem lockstep_bitfield (open' : 0 < i.depth) :
    Lockstep m i i.take (bitfield l) (bitfield l') := by
  refine .here fun _ => (lockstep_annotations fits).bind fun _ =>
    (lockstep_expectKeyword _).discard.bind fun _ =>
    (lockstep_angled fits fun fits => (lockstep_bitfieldArgs fits).keep).bind fun args => ?_
  obtain ⟨width, type⟩ := args
  refine .test (respects_at? _) fun _ => .branch ?_ ?_
  · exact (Lockstep.pure []).bind fun _ =>
      (lockstep_semi (.inr open')).discard.bind fun _ => .spanned
  · exact (Lockstep.commaList fun _ => lockstep_ident).bind fun _ =>
      (lockstep_semi (.inr open')).discard.bind fun _ => .spanned

theorem lockstep_bitsetType : Lockstep m i i.take (bitsetType l) (bitsetType l') :=
  (lockstep_expectKeyword _).bind fun _ => lockstep_ident.bind fun _ => lockstep_base?.bind fun _ =>
    lockstep_leftBrace.discard.bind fun _ =>
    (Lockstep.many respects_atClose (lockstep_bitfield fits (Nat.succ_pos _))).bind fun _ =>
    lockstep_rightBrace.discard.bind fun _ => .spanned

theorem lockstep_caseLabel : Lockstep m i i.take (caseLabel l) (caseLabel l') :=
  (lockstep_eatKeyword _).bind fun _ => .branch
    ((lockstep_constExpr fits).bind fun _ => (lockstep_expect (by decide)).discard.bind fun _ =>
      .pure _)
    ((lockstep_expectKeyword _).bind fun _ => (lockstep_expect (by decide)).discard.bind fun _ =>
      .pure _)

end

/-! Types that hold others. -/

section

variable {l l' : Level} (fits : Fits m l l') {type type' : Parser TypeSpec}
  (types : ∀ i, Lockstep m i i.take type type')

include fits types

theorem lockstep_member (open' : 0 < i.depth) :
    Lockstep m i i.take (member l type) (member l' type') :=
  .here fun _ => (lockstep_annotations fits).bind fun _ => (types _).bind fun _ =>
    (lockstep_declarators fits).bind fun _ => (lockstep_semi (.inr open')).discard.bind fun _ =>
    .spanned

theorem lockstep_members (open' : 0 < i.depth) :
    Lockstep m i i (members l type) (members l' type') :=
  .many respects_atClose (lockstep_member fits types open')

theorem lockstep_structBody (start : Span) (name : Ident) :
    Lockstep m i i.take (structBody l type start name) (structBody l' type' start name) :=
  lockstep_base?.bind fun _ => lockstep_leftBrace.discard.bind fun _ =>
    (lockstep_members fits types (Nat.succ_pos _)).bind fun _ =>
    lockstep_rightBrace.discard.bind fun _ => .spanned

theorem lockstep_unionCase (open' : 0 < i.depth) :
    Lockstep m i i.take (unionCase l type) (unionCase l' type') := by
  have labels : Respects fun s => !(s.atKeyword .caseKw || s.atKeyword .default) :=
    fun _ _ ahead => by dsimp only; rw [ahead.atKeyword, ahead.atKeyword]
  refine .here fun _ => (Lockstep.many labels (lockstep_caseLabel fits)).bind fun _ =>
    .branch .failed ?_
  exact (lockstep_annotations fits).bind fun _ => (types _).bind fun _ =>
    (lockstep_declarator fits).bind fun _ => (lockstep_semi (.inr open')).discard.bind fun _ =>
    .spanned

theorem lockstep_unionBody (start : Span) (name : Ident) :
    Lockstep m i i.take (unionBody l type start name) (unionBody l' type' start name) := by
  refine (lockstep_expectKeyword _).discard.bind fun _ => (lockstep_expect (by decide)).bind
    fun _ => (lockstep_annotations fits).bind fun _ => (types _).bind fun _ =>
    (lockstep_expect (by decide)).discard.bind fun _ => .spanFrom fun _ =>
    lockstep_leftBrace.discard.bind fun _ =>
    (Lockstep.many respects_atClose (lockstep_unionCase fits types (Nat.succ_pos _))).bind fun _ =>
    .branch .failed ?_
  exact lockstep_rightBrace.discard.bind fun _ => .spanned

end

/-- A type that is not primitive. -/
def unprimitive (l : Level) (type : Bool → Parser TypeSpec) : Parser TypeSpec := do
  match ← kind with
  | .ident | .punct .colonColon => return .named ⟨← scopedName, none⟩
  | .keyword word => keywordType l type word
  | _ => expected "type"

section

variable {l l' : Level} (fits : Fits m l l')

include fits

theorem lockstep_bound? : Lockstep m i i (bound? l) (bound? l') :=
  (lockstep_eat (by decide)).bind fun _ => .branch
    ((lockstep_constExpr fits).keep.bind fun _ => .pure _) (.pure _)

theorem lockstep_stringBound? : Lockstep m i i (stringBound? l) (stringBound? l') :=
  .test (respects_at? _) fun _ => .branch
    ((lockstep_angled fits fun fits => (lockstep_constExpr fits).keep).keep.bind fun _ => .pure _)
    (.pure _)

theorem LockstepAt.keywordType {base : Nat} {s t : Cursor} {type type' : Bool → Parser TypeSpec}
    (types : ∀ b i, Lockstep m i i.take (type b) (type' b)) {word : Keyword}
    (next : s.kind = .keyword word) :
    LockstepAt m base i i.take s t (keywordType l type word) (keywordType l' type' word) := by
  have bump : LockstepAt m base i i.take s t Grammar.bump Grammar.bump :=
    .bump (by rw [next]; exact .keyword word)
  rw [Grammar.keywordType.eq_def, Grammar.keywordType.eq_def]
  split
  · exact bump.map.bind fun _ => lockstep_angled fits fun fits => (types _ _).keep.bind fun _ =>
      (lockstep_bound? fits).bind fun _ => .pure _
  · exact bump.map.bind fun _ => lockstep_angled fits fun fits => (types _ _).keep.bind fun _ =>
      (lockstep_bound? fits).bind fun _ => .pure _
  · exact bump.map.bind fun _ => lockstep_angled fits fun fits => (types _ _).keep.bind fun _ =>
      (lockstep_expect (by decide)).discard.keep.bind fun _ => (types _ _).keep.bind fun _ =>
      (lockstep_bound? fits).bind fun _ => .pure _
  · exact bump.map.bind fun _ => (lockstep_stringBound? fits).bind fun _ => .pure _
  · exact bump.map.bind fun _ => (lockstep_stringBound? fits).bind fun _ => .pure _
  · exact bump.map.bind fun _ => .test (respects_at? _) fun _ => .branch
      (lockstep_angled fits fun fits => (lockstep_constExpr fits).keep.bind fun _ =>
        (lockstep_expect (by decide)).discard.keep.bind fun _ =>
        (lockstep_constExpr fits).keep.bind fun _ => .pure _)
      (.pure _)
  · rw [fits.template]
    exact bump.bind fun _ => lockstep_ident.bind fun _ =>
      (lockstep_structBody fits (types _) _ _).bind fun _ => .pure _
  · rw [fits.template]
    exact bump.bind fun _ => lockstep_ident.bind fun _ =>
      (lockstep_unionBody fits (types _) _ _).bind fun _ => .pure _
  · exact (lockstep_enumType fits base s t).bind fun _ => .pure _
  · exact (lockstep_bitsetType fits base s t).bind fun _ => .pure _
  · exact (lockstep_bitmaskType fits base s t).bind fun _ => .pure _
  · exact Lockstep.expected _ base s t

theorem lockstep_unprimitive {type type' : Bool → Parser TypeSpec}
    (types : ∀ b i, Lockstep m i i.take (type b) (type' b)) (i : Stage) :
    Lockstep m i i.take (unprimitive l type) (unprimitive l' type') := by
  intro base s t
  rw [unprimitive, unprimitive]
  refine .kind ?_
  split
  · exact (lockstep_scopedName base s t).bind fun _ => .pure _
  · exact (lockstep_scopedName base s t).bind fun _ => .pure _
  · next word next => exact .keywordType fits types next
  · exact Lockstep.expected _ base s t

theorem lockstep_typeWith {type type' : Bool → Parser TypeSpec}
    (types : ∀ b i, Lockstep m i i.take (type b) (type' b)) :
    Lockstep m i i.take (typeWith l type) (typeWith l' type') := by
  intro base s t
  refine .primitive? (fun type => ?_) (lockstep_unprimitive fits types i base s t)
  cases type with
  | none => exact lockstep_unprimitive fits types _
  | some k => exact .pure _

end

theorem lockstep_typeSpecAt (limit left limit' left' : Nat) (inTemplate : Bool)
    (within : Within m limit left limit' left') (i : Stage) :
    Lockstep m i i.take (typeSpecAt limit left inTemplate)
      (typeSpecAt limit' left' inTemplate) := by
  induction left generalizing left' inTemplate i with
  | zero => exact .tooDeep within fun none => by rw [none]; rfl
  | succ left ih =>
    obtain ⟨less, rfl, below⟩ := within.down
    have fits : Fits m ⟨limit, left, inTemplate⟩ ⟨limit', less, inTemplate⟩ := ⟨below, rfl⟩
    exact lockstep_typeWith fits fun b => ih less b below

theorem lockstep_typeSpec {l l' : Level} (fits : Fits m l l') (i : Stage) :
    Lockstep m i i.take (typeSpec l) (typeSpec l') := by
  rw [typeSpec, typeSpec, fits.template]
  exact lockstep_typeSpecAt _ _ _ _ _ fits.within i

end Idl.Grammar
