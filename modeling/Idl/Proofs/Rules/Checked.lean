import Idl.Proofs.Binding.Binds
import Idl.Proofs.Layout.Laid
import Idl.Rules.Unit

/-!
What a unit keeps when its walk reports no error: names and labels are distinct, sizes positive,
widths in range, and discriminants admit labels. Main statement: `checked_of_quiet`.
-/

set_option autoImplicit false

namespace Idl

namespace Rules

/-- None of the breaches is an error. -/
def Quiet (strict : Bool) (bs : Breaches) : Prop :=
  ∀ b ∈ bs, b.violation.severity strict ≠ .error

variable {strict : Bool}

@[simp] theorem quiet_append (as bs : Breaches) :
    Quiet strict (as ++ bs) ↔ Quiet strict as ∧ Quiet strict bs := by
  simp only [Quiet, List.mem_append]
  exact ⟨fun quiet => ⟨fun b mem => quiet b (.inl mem), fun b mem => quiet b (.inr mem)⟩,
    fun quiet b mem => mem.elim (quiet.1 b) (quiet.2 b)⟩

theorem Quiet.of_flatMap {α : Type} {f : α → Breaches} {xs : List α}
    (quiet : Quiet strict (xs.flatMap f)) {x : α} (mem : x ∈ xs) : Quiet strict (f x) :=
  fun b inside => quiet b (List.mem_flatMap.mpr ⟨x, mem, inside⟩)

/-- A breach that is an error is no part of what is quiet. -/
theorem not_quiet_cons {b : Breach} {bs : Breaches} (error : b.violation.severity strict = .error) :
    ¬ Quiet strict (b :: bs) :=
  fun quiet => quiet b (by simp) error

/-! Single declarations. -/

theorem nodup_of_duplicates (violation : Ident → Span → Violation)
    (error : ∀ name span, (violation name span).severity strict = .error) (names : List Ident)
    (seen : List Ident) (quiet : Quiet strict (duplicates violation seen names)) :
    (names.map (·.name)).Nodup ∧ ∀ a ∈ seen, ∀ b ∈ names, a.name ≠ b.name := by
  induction names generalizing seen with
  | nil => simp
  | cons name rest ih =>
    rw [duplicates] at quiet
    split at quiet
    · exact absurd quiet (not_quiet_cons (error _ _))
    · next fresh =>
      obtain ⟨nodup, unlike⟩ := ih _ quiet
      have away (a : Ident) (mem : a ∈ seen) : a.name ≠ name.name := by
        have ne := List.find?_eq_none.mp fresh a mem
        simpa using ne
      refine ⟨?_, ?_⟩
      · rw [List.map_cons, List.nodup_cons]
        refine ⟨fun mem => ?_, nodup⟩
        obtain ⟨b, inside, same⟩ := List.mem_map.mp mem
        exact unlike name (by simp) b inside same.symm
      · intro a mem b inside
        rcases List.mem_cons.mp inside with rfl | inside
        · exact away a mem
        · exact unlike a (by simp [mem]) b inside

theorem nodup_of_uniqueMembers {noun : String} {owner : Ident} {names : List Ident}
    (quiet : Quiet strict (uniqueMembers noun owner names)) : (names.map (·.name)).Nodup :=
  (nodup_of_duplicates _ (fun _ _ => rfl) names [] quiet).1

/-- The size is positive, if it is one. -/
def Positive (e : ConstExpr) : Prop := ∀ v, intValue? e = some v → 0 < v

theorem positive_of_quiet {noun : String} {e : ConstExpr} (quiet : Quiet strict (positive noun e)) :
    Positive e := by
  intro v value
  by_contra negative
  simp only [positive, value, if_pos (Int.not_lt.mp negative)] at quiet
  exact not_quiet_cons rfl quiet

theorem positive_of_quiet? {noun : String} {e : Option ConstExpr}
    (quiet : Quiet strict (positive? noun e)) : ∀ size ∈ e, Positive size := by
  intro size mem
  exact positive_of_quiet (quiet.of_flatMap (by simpa using mem))

theorem positive_of_dims {d : Declarator} (quiet : Quiet strict (dims d)) :
    ∀ e ∈ d.dims, Positive e :=
  fun _ mem => positive_of_quiet (quiet.of_flatMap mem)

theorem positive_of_declarators {ds : List Declarator} (quiet : Quiet strict (ds.flatMap dims)) :
    ∀ d ∈ ds, ∀ e ∈ d.dims, Positive e :=
  fun _ mem => positive_of_dims (quiet.of_flatMap mem)

/-- Digits and scale are within their limits, if they are numbers. -/
def InFixedRange (digits scale : ConstExpr) : Prop :=
  ∀ d s, intValue? digits = some d → intValue? scale = some s →
    1 ≤ d ∧ d ≤ maxFixedDigits ∧ 0 ≤ s ∧ s ≤ d

theorem inFixedRange_of_quiet {digits scale : ConstExpr}
    (quiet : Quiet strict (fixedArgs digits scale)) : InFixedRange digits scale := by
  intro d s hasDigits hasScale
  rw [fixedArgs, hasDigits] at quiet
  simp only [hasScale] at quiet
  split at quiet
  · exact absurd quiet (not_quiet_cons rfl)
  · next digitsFit =>
    split at quiet
    · exact absurd quiet (not_quiet_cons rfl)
    · next scaleFits => omega

/-- The width is in range, if it is a number. -/
def FitsWidth (f : Bitfield) : Prop :=
  ∀ v, intValue? f.width = some v → 1 ≤ v ∧ v ≤ maxWidth f.type

theorem fitsWidth_of_quiet {f : Bitfield} (quiet : Quiet strict (bitfieldWidth f).2) :
    FitsWidth f := by
  intro v value
  by_contra outside
  simp only [bitfieldWidth, value, if_neg outside] at quiet
  exact not_quiet_cons rfl quiet

theorem fresh_of_lookup {α β : Type} [BEq α] [LawfulBEq α] {a : α} {pairs : List (α × β)}
    (none : pairs.lookup a = none) : a ∉ pairs.map (·.1) := by
  intro mem
  obtain ⟨pair, inside, rfl⟩ := List.mem_map.mp mem
  have unequal := List.lookup_eq_none_iff.mp none pair inside
  simp at unequal

/-- The positions are distinct and below the bound. -/
structure PositionsFit (bound : Int) (positions : List Int) : Prop where
  distinct : positions.Nodup
  inside : ∀ p ∈ positions, 0 ≤ p ∧ p < bound

theorem positionsFit_of_quiet {bitmask : Ident} {bound : Int} (flags : List (Enumerator × Int))
    (used : List (Int × Ident)) (quiet : Quiet strict (positions bitmask bound used flags)) :
    PositionsFit bound (flags.map (·.2)) ∧ ∀ p ∈ used.map (·.1), p ∉ flags.map (·.2) := by
  induction flags generalizing used with
  | nil => exact ⟨⟨by simp, by simp⟩, by simp⟩
  | cons flag rest ih =>
    obtain ⟨name, position⟩ := flag
    rw [positions] at quiet
    split at quiet
    · exact absurd quiet (not_quiet_cons rfl)
    · next inside =>
      split at quiet
      · exact absurd quiet (not_quiet_cons rfl)
      · next free =>
        obtain ⟨fit, unused⟩ := ih _ quiet
        refine ⟨⟨List.nodup_cons.mpr ⟨unused position (by simp), fit.distinct⟩, ?_⟩, ?_⟩
        · simp only [List.map_cons, List.forall_mem_cons]
          exact ⟨by omega, fit.inside⟩
        · intro p mem same
          rcases List.mem_cons.mp same with rfl | behind
          · exact fresh_of_lookup free mem
          · exact unused p (List.mem_cons_of_mem _ mem) behind

/-- The bit bound is in range where it is told as a number, and the flags fit it. Where none is
told, they fit the default; one that is told as no number is not looked at. -/
structure FlagsFit (as : List AnnotationUse) (values : List Enumerator) : Prop where
  told : ∀ bound, annotationInt? as "bit_bound" = some bound →
    1 ≤ bound ∧ bound ≤ maxBits ∧ PositionsFit bound (flagPositions 0 values)
  untold : findAnnotation? as "bit_bound" = none →
    PositionsFit defaultBitBound (flagPositions 0 values)

theorem flagsFit_of_quiet {as : List AnnotationUse} {s : BitmaskType}
    (quiet : Quiet strict (bitmaskType as s)) : FlagsFit as s.values := by
  have zipped : (s.values.zip (flagPositions 0 s.values)).map (·.2) = flagPositions 0 s.values :=
    List.map_snd_zip (by simp)
  have fit {bound : Int} (quiet : Quiet strict
      (positions s.name bound [] (s.values.zip (flagPositions 0 s.values)))) :
      PositionsFit bound (flagPositions 0 s.values) :=
    zipped ▸ (positionsFit_of_quiet _ _ quiet).1
  rw [bitmaskType, bitBound] at quiet
  cases found : findAnnotation? as "bit_bound" with
  | none =>
    have silent : annotationInt? as "bit_bound" = none := by
      rw [annotationInt?, found]
      rfl
    simp only [found, Option.isSome_none, Bool.false_eq_true, if_false, quiet_append] at quiet
    exact ⟨fun v told => absurd (told.symm.trans silent) (Option.some_ne_none v),
      fun _ => fit quiet.2⟩
  | some a =>
    refine ⟨fun v told => ?_, fun absent => by rw [found] at absent; cases absent⟩
    by_cases range : 1 ≤ v ∧ v ≤ maxBits
    · simp only [found, told, if_pos range, quiet_append] at quiet
      exact ⟨range.1, range.2, fit quiet.2⟩
    · simp only [found, told, if_neg range, Option.isSome_some, if_true, quiet_append] at quiet
      exact absurd quiet.2 (not_quiet_cons rfl)

def isDefault : CaseLabel → Bool
  | .default _ => true
  | .value _ => false

/-- The values among labels. -/
def labelValues (ls : List CaseLabel) : List ConstValue :=
  ls.filterMap fun
    | .value e => e.value.map (·.value)
    | .default _ => none

/-- All labels so far are distinct, and one of them at most is the default. -/
structure Labels.Distinct (seen : Labels) (more : List CaseLabel) : Prop where
  values : (seen.values.map (·.1) ++ labelValues more).Nodup
  default : seen.default.toList.length + (more.filter isDefault).length ≤ 1

/-- What reading labels leaves for the labels behind them. -/
theorem distinct_of_caseLabels (union : Ident) (ls : List CaseLabel) (seen : Labels)
    (more : List CaseLabel) (quiet : Quiet strict (caseLabels union seen ls).2)
    (distinct : (caseLabels union seen ls).1.Distinct more) : seen.Distinct (ls ++ more) := by
  induction ls generalizing seen with
  | nil => exact distinct
  | cons l rest ih =>
    cases l with
    | value e =>
      cases value : e.value with
      | none =>
        simp only [caseLabels, value] at quiet distinct
        have inner := ih seen quiet distinct
        refine ⟨?_, ?_⟩
        · simpa [labelValues, value] using inner.values
        · simpa [isDefault] using inner.default
      | some constant =>
        simp only [caseLabels, value] at quiet distinct
        split at quiet
        · exact absurd quiet (not_quiet_cons rfl)
        · next fresh =>
          simp only [fresh] at distinct
          have inner := ih _ quiet distinct
          refine ⟨?_, ?_⟩
          · simpa [labelValues, value] using inner.values
          · simpa [isDefault] using inner.default
    | default span =>
      simp only [caseLabels] at quiet distinct
      split at quiet
      · exact absurd quiet (not_quiet_cons rfl)
      · next fresh =>
        simp only [fresh] at distinct
        have inner := ih _ quiet distinct
        refine ⟨?_, ?_⟩
        · simpa [labelValues] using inner.values
        · have one : 1 + ((rest ++ more).filter isDefault).length ≤ 1 := inner.default
          have first : (CaseLabel.default span :: rest ++ more).filter isDefault =
              .default span :: (rest ++ more).filter isDefault := rfl
          rw [first, fresh, List.length_cons, Option.toList_none, List.length_nil]
          omega

/-- Labels that are told apart stay so. -/
theorem caseLabels_distinct (union : Ident) (ls : List CaseLabel) (seen : Labels)
    (quiet : Quiet strict (caseLabels union seen ls).2) (distinct : seen.Distinct []) :
    (caseLabels union seen ls).1.Distinct [] := by
  induction ls generalizing seen with
  | nil => exact distinct
  | cons l rest ih =>
    cases l with
    | value e =>
      cases value : e.value with
      | none =>
        simp only [caseLabels, value] at quiet ⊢
        exact ih seen quiet distinct
      | some constant =>
        simp only [caseLabels, value] at quiet ⊢
        split at quiet
        · exact absurd quiet (not_quiet_cons rfl)
        · next fresh =>
          refine ih _ quiet ⟨?_, distinct.default⟩
          have values := distinct.values
          have unseen := fresh_of_lookup fresh
          simp only [labelValues, List.filterMap_nil, List.append_nil, List.map_append,
            List.map_cons, List.map_nil, List.nodup_append, List.mem_singleton] at values ⊢
          exact ⟨values, by simp, fun a mem b same => by rw [same]; rintro rfl; exact unseen mem⟩
    | default span =>
      simp only [caseLabels] at quiet ⊢
      split at quiet
      · exact absurd quiet (not_quiet_cons rfl)
      · next fresh =>
        exact ih _ quiet ⟨distinct.values, by simp⟩

/-! The walk. -/

/-- The sizes in the type are in range, as far as they are numbers. -/
def FitsType (τ : TypeSpec) : Prop := τ.Every (fun _ => True) Positive InFixedRange

/-- The type and the array dimensions of a member are in range. -/
def FitsMember (m : Member TypeSpec) : Prop :=
  FitsType m.type ∧ ∀ d ∈ m.declarators, ∀ e ∈ d.dims, Positive e

/-- The type and the array dimensions of a case are in range. -/
def FitsCase (c : UnionCase TypeSpec) : Prop :=
  FitsType c.type ∧ ∀ e ∈ c.declarator.dims, Positive e

/-- What the rules say of a declaration. -/
def Checked (t : SymbolTable) : Laid → Prop
  | .struct s => ((memberNames s.members).map (·.name)).Nodup ∧ ∀ m ∈ s.members, FitsMember m
  | .union u =>
    (u.cases.map (·.declarator.name.name)).Nodup ∧ (∀ c ∈ u.cases, FitsCase c) ∧
      (isUnbound u.discriminant.type = false →
        FitsType u.discriminant.type ∧ (t.discriminantType? u.discriminant.type).isSome = true) ∧
      Labels.Distinct ⟨[], none⟩ (u.cases.flatMap (·.labels))
  | .enum _ _ => True
  | .bitset s =>
    ((s.bitfields.flatMap (·.names)).map (·.name)).Nodup ∧ ∀ f ∈ s.bitfields, FitsWidth f
  | .bitmask as s => (s.values.map (·.name.name)).Nodup ∧ FlagsFit as s.values
  | .typedef type d => FitsType type ∧ ∀ e ∈ d.dims, Positive e
  | .const _ => True
  | .exception d => ((memberNames d.members).map (·.name)).Nodup ∧ ∀ m ∈ d.members, FitsMember m
  | .native _ => True
  | .closed _ _ => True

/-- A step of the walk reports breaches, and `Q` holds unless some of them is an error. -/
def Checks (strict : Bool) (t : SymbolTable) (p : CheckM Unit) (Q : Prop) : Prop :=
  ∀ s, ∃ bs, ((p.run t).run s).2.breaches = s.breaches ++ bs ∧ (Quiet strict bs → Q)

namespace Checks

variable {t : SymbolTable} {p q : CheckM Unit} {P Q : Prop}

theorem skip (holds : Q) : Checks strict t (pure ()) Q :=
  fun s => ⟨[], (List.append_nil s.breaches).symm, fun _ => holds⟩

theorem report (bs : Breaches) : Checks strict t (report bs) (Quiet strict bs) :=
  fun _ => ⟨bs, rfl, fun quiet => quiet⟩

theorem seq (first : Checks strict t p P) (second : Checks strict t q Q) :
    Checks strict t (do p; q) (P ∧ Q) := by
  intro s
  obtain ⟨bs, run, claim⟩ := first s
  obtain ⟨cs, run', claim'⟩ := second ((p.run t).run s).2
  refine ⟨bs ++ cs, ?_, fun quiet => ?_⟩
  · rw [← List.append_assoc, ← run]
    exact run'
  · rw [quiet_append] at quiet
    exact ⟨claim quiet.1, claim' quiet.2⟩

theorem weaken (checks : Checks strict t p P) (imp : P → Q) : Checks strict t p Q := by
  intro s
  obtain ⟨bs, run, claim⟩ := checks s
  exact ⟨bs, run, fun quiet => imp (claim quiet)⟩

/-- What is only looked up breaks no rule. -/
theorem looked {α : Type} {p : CheckM α} {k : α → CheckM Unit}
    (silent : ∀ s, ((p.run t).run s).2 = s) (checks : ∀ a, Checks strict t (k a) Q) :
    Checks strict t (p >>= k) Q := by
  intro s
  obtain ⟨bs, run, claim⟩ := checks ((p.run t).run s).1 s
  refine ⟨bs, ?_, claim⟩
  rw [← run]
  have same : ((p >>= k).run t).run s = ((k ((p.run t).run s).1).run t).run
      ((p.run t).run s).2 := rfl
  rw [same, silent]

/-- Widths are no breaches. -/
theorem recordWidth (id : SymbolId) (width : Int) :
    Checks strict t (modify fun s => { s with widths := (id, width) :: s.widths }) True :=
  fun s => ⟨[], (List.append_nil s.breaches).symm, fun _ => trivial⟩

end Checks

variable {t : SymbolTable}

/-- Records the bits of a bitset. -/
def recordTotal (s : BitsetType) (total : Int) : CheckM Unit := do
  match (← read).definedAt? s.name.span with
  | some id => modify fun s => { s with widths := (id, total) :: s.widths }
  | none => pure ()

theorem checks_bitsetType (s : BitsetType) :
    Checks strict t (bitsetType s) (Checked t (.bitset s)) := by
  have names : Checks strict t
      (report (uniqueMembers "bitset" s.name (s.bitfields.flatMap (·.names)))) _ := Checks.report _
  have widths : Checks strict t (report ((s.bitfields.map bitfieldWidth).flatMap (·.2))) _ :=
    Checks.report _
  refine (names.seq (Checks.looked (fun _ => rfl) fun st => widths.seq (Q := True) ?_)).weaken
    fun ⟨distinct, fit, _⟩ => ⟨nodup_of_uniqueMembers distinct, fun f mem => ?_⟩
  · have record (total : Int) : Checks strict t (recordTotal s total) True := by
      refine Checks.looked (fun _ => rfl) fun table => ?_
      split
      · exact Checks.recordWidth _ _
      · exact Checks.skip trivial
    dsimp only
    split
    · exact ((Checks.report _).seq (record _)).weaken fun _ => trivial
    · exact record _
  · exact fitsWidth_of_quiet (fit.of_flatMap (List.mem_map_of_mem mem))

theorem checks_discriminant (union : Ident) (d : SwitchType TypeSpec) :
    Checks strict t (discriminant union d) ((t.discriminantType? d.type).isSome = true) := by
  intro s
  have unfolded : ((discriminant union d).run t).run s =
      ((if (t.discriminantType? d.type).isNone then
          report [⟨.badDiscriminant d.type.text union.name, d.span⟩]
        else pure () : CheckM Unit).run t).run s := rfl
  rw [unfolded]
  cases labels : t.discriminantType? d.type with
  | some type => exact ⟨[], (List.append_nil s.breaches).symm, fun _ => rfl⟩
  | none => exact ⟨_, rfl, fun quiet => absurd quiet (not_quiet_cons rfl)⟩

theorem checks_bitmaskType (as : List AnnotationUse) (s : BitmaskType) :
    Checks strict t (report (bitmaskType as s)) (Checked t (.bitmask as s)) := by
  refine (Checks.report _).weaken fun quiet => ⟨?_, flagsFit_of_quiet quiet⟩
  have names : Quiet strict (uniqueMembers "bitmask" s.name (s.values.map (·.name))) := by
    rw [bitmaskType] at quiet
    split at quiet
    · simp only [quiet_append] at quiet
      exact quiet.1.1
    · split at quiet
      · simp only [quiet_append] at quiet
        exact quiet.1
      · simp only [quiet_append] at quiet
        exact quiet.1.1
  have distinct := nodup_of_uniqueMembers names
  rw [List.map_map] at distinct
  exact distinct

theorem laid_of_isUnbound {type : TypeSpec} (unbound : isUnbound type = true) :
    type.laid = [] := by
  cases type <;> first | cases unbound | rw [TypeSpec.laid]

mutual

theorem checks_typeSpec (strict : Bool) (t : SymbolTable) : (τ : TypeSpec) →
    Checks strict t (typeSpec τ) (FitsType τ ∧ ∀ x ∈ τ.laid, Checked t x)
  | .struct ⟨name, base, fields, span⟩ => by
    rw [typeSpec, TypeSpec.laid]
    refine ((Checks.report _).seq (checks_members strict t fields)).weaken ?_
    rintro ⟨quiet, fit, inner⟩
    refine ⟨trivial, fun x mem => ?_⟩
    rcases List.mem_cons.mp mem with rfl | mem
    · exact ⟨nodup_of_uniqueMembers quiet, fit⟩
    · exact inner x mem
  | .union ⟨name, ⟨as, type, switchSpan⟩, cases, span⟩ => by
    rw [typeSpec, TypeSpec.laid]
    have inCases := checks_unionCases strict t name ⟨[], none⟩ cases
    have switch : Checks strict t
        (if isUnbound type = true then unionCases name ⟨[], none⟩ cases
        else do
          typeSpec type
          discriminant name ⟨as, type, switchSpan⟩
          unionCases name ⟨[], none⟩ cases)
        ((isUnbound type = false → FitsType type ∧ (t.discriminantType? type).isSome = true) ∧
          (∀ x ∈ type.laid, Checked t x) ∧
          Labels.Distinct ⟨[], none⟩ (cases.flatMap (·.labels)) ∧ (∀ c ∈ cases, FitsCase c) ∧
          ∀ x ∈ caseLaid cases, Checked t x) := by
      have empty : Labels.Distinct ⟨[], none⟩ [] := ⟨by simp [labelValues], by simp⟩
      split
      · next unbound =>
        rw [laid_of_isUnbound unbound]
        exact inCases.weaken fun ⟨distinct, inner⟩ =>
          ⟨fun bound => absurd (unbound.symm.trans bound) (by decide), by simp, distinct empty,
            inner⟩
      · exact ((checks_typeSpec strict t type).seq ((checks_discriminant name _).seq
          inCases)).weaken fun ⟨⟨fit, inner⟩, admits, distinct, rest⟩ =>
            ⟨fun _ => ⟨fit, admits⟩, inner, distinct empty, rest⟩
    refine ((Checks.report _).seq switch).weaken ?_
    rintro ⟨quiet, admits, inner, distinct, fit, inner'⟩
    refine ⟨trivial, fun x mem => ?_⟩
    rcases List.mem_cons.mp mem with rfl | mem
    · have names := nodup_of_uniqueMembers quiet
      rw [List.map_map] at names
      exact ⟨names, fit, admits, distinct⟩
    · exact (List.mem_append.mp mem).elim (inner x) (inner' x)
  | .enum e => by
    rw [typeSpec, TypeSpec.laid]
    refine (Checks.report _).weaken fun _ => ⟨trivial, fun x mem => ?_⟩
    rw [List.mem_singleton.mp mem]
    trivial
  | .bitset s => by
    rw [typeSpec, TypeSpec.laid]
    refine (checks_bitsetType s).weaken fun checked => ⟨trivial, fun x mem => ?_⟩
    rw [List.mem_singleton.mp mem]
    exact checked
  | .bitmask s => by
    rw [typeSpec, TypeSpec.laid]
    refine (checks_bitmaskType [] s).weaken fun checked => ⟨trivial, fun x mem => ?_⟩
    rw [List.mem_singleton.mp mem]
    exact checked
  | .sequence element bound => by
    rw [typeSpec, TypeSpec.laid]
    exact ((checks_typeSpec strict t element).seq (Checks.report _)).weaken
      fun ⟨⟨fit, inner⟩, quiet⟩ => ⟨⟨fit, positive_of_quiet? quiet⟩, inner⟩
  | .set element bound => by
    rw [typeSpec, TypeSpec.laid]
    exact ((checks_typeSpec strict t element).seq (Checks.report _)).weaken
      fun ⟨⟨fit, inner⟩, quiet⟩ => ⟨⟨fit, positive_of_quiet? quiet⟩, inner⟩
  | .map key value bound => by
    rw [typeSpec, TypeSpec.laid]
    refine ((checks_typeSpec strict t key).seq ((checks_typeSpec strict t value).seq
      (Checks.report _))).weaken ?_
    rintro ⟨⟨fit, inner⟩, ⟨fit', inner'⟩, quiet⟩
    exact ⟨⟨fit, fit', positive_of_quiet? quiet⟩,
      fun x mem => (List.mem_append.mp mem).elim (inner x) (inner' x)⟩
  | .primitive _ => by
    rw [typeSpec, TypeSpec.laid]
    exact Checks.skip ⟨trivial, by simp⟩
  | .named _ => by
    rw [typeSpec, TypeSpec.laid]
    exact Checks.skip ⟨trivial, by simp⟩
  | .string _ => by
    rw [typeSpec, TypeSpec.laid]
    exact (Checks.report _).weaken fun quiet => ⟨positive_of_quiet? quiet, by simp⟩
  | .wstring _ => by
    rw [typeSpec, TypeSpec.laid]
    exact (Checks.report _).weaken fun quiet => ⟨positive_of_quiet? quiet, by simp⟩
  | .fixed none => by
    rw [typeSpec, TypeSpec.laid]
    exact Checks.skip ⟨trivial, by simp⟩
  | .fixed (some (_, _)) => by
    rw [typeSpec, TypeSpec.laid]
    exact (Checks.report _).weaken fun quiet => ⟨inFixedRange_of_quiet quiet, by simp⟩

theorem checks_members (strict : Bool) (t : SymbolTable) : (ms : List (Member TypeSpec)) →
    Checks strict t (members ms) ((∀ m ∈ ms, FitsMember m) ∧ ∀ x ∈ memberLaid ms, Checked t x)
  | [] => by
    rw [members, memberLaid]
    exact Checks.skip ⟨by simp, by simp⟩
  | ⟨as, type, ds, span⟩ :: rest => by
    rw [members, memberLaid]
    refine ((checks_typeSpec strict t type).seq ((Checks.report _).seq
      (checks_members strict t rest))).weaken ?_
    rintro ⟨⟨fit, inner⟩, quiet, fit', inner'⟩
    refine ⟨fun m mem => ?_, fun x mem => (List.mem_append.mp mem).elim (inner x) (inner' x)⟩
    rcases List.mem_cons.mp mem with rfl | mem
    · exact ⟨fit, positive_of_declarators quiet⟩
    · exact fit' m mem

theorem checks_unionCases (strict : Bool) (t : SymbolTable) (union : Ident) (seen : Labels) :
    (cs : List (UnionCase TypeSpec)) → Checks strict t (unionCases union seen cs)
      ((seen.Distinct [] → seen.Distinct (cs.flatMap (·.labels))) ∧ (∀ c ∈ cs, FitsCase c) ∧
        ∀ x ∈ caseLaid cs, Checked t x)
  | [] => by
    rw [unionCases, caseLaid]
    exact Checks.skip ⟨fun distinct => distinct, by simp, by simp⟩
  | ⟨ls, as, type, d, span⟩ :: rest => by
    rw [unionCases, caseLaid]
    refine ((Checks.report _).seq ((checks_typeSpec strict t type).seq ((Checks.report _).seq
      (checks_unionCases strict t union (caseLabels union seen ls).1 rest)))).weaken ?_
    rintro ⟨told, ⟨fit, inner⟩, quiet, behind, fit', inner'⟩
    refine ⟨fun distinct => distinct_of_caseLabels union ls seen _ told
        (behind (caseLabels_distinct union ls seen told distinct)), fun c mem => ?_,
      fun x mem => (List.mem_append.mp mem).elim (inner x) (inner' x)⟩
    rcases List.mem_cons.mp mem with rfl | mem
    · exact ⟨fit, positive_of_dims quiet⟩
    · exact fit' c mem

end

theorem checked_closed {t : SymbolTable} (name : Ident) (kind : SymbolKind)
    {body : List (Export Definition)} (inner : ∀ x ∈ exportLaid body, Checked t x) :
    ∀ x ∈ Laid.closed name kind :: exportLaid body, Checked t x := by
  intro x mem
  rcases List.mem_cons.mp mem with rfl | mem
  · trivial
  · exact inner x mem

mutual

theorem checks_definition (strict : Bool) (t : SymbolTable) : (d : Definition) →
    Checks strict t (definition d) (∀ x ∈ d.laid, Checked t x)
  | ⟨as, kind, _⟩ => by
    rw [definition, Definition.laid]
    exact checks_definitionKind strict t as kind

theorem checks_definitionKind (strict : Bool) (t : SymbolTable) (as : List AnnotationUse) :
    (kind : DefinitionKind Definition) →
    Checks strict t (definitionKind as kind) (∀ x ∈ kindLaid as kind, Checked t x)
  | .module ⟨_, ds⟩ => by
    rw [definitionKind, kindLaid]
    exact checks_definitions strict t ds
  | .struct s => by
    rw [definitionKind, kindLaid]
    exact (checks_typeSpec strict t (.struct s)).weaken And.right
  | .union u => by
    rw [definitionKind, kindLaid]
    exact (checks_typeSpec strict t (.union u)).weaken And.right
  | .enum e => by
    rw [definitionKind, kindLaid]
    refine (Checks.report _).weaken fun _ x mem => ?_
    rw [List.mem_singleton.mp mem]
    trivial
  | .bitset s => by
    rw [definitionKind, kindLaid]
    refine (checks_bitsetType s).weaken fun checked x mem => ?_
    rw [List.mem_singleton.mp mem]
    exact checked
  | .bitmask s => by
    rw [definitionKind, kindLaid]
    refine (checks_bitmaskType as s).weaken fun checked x mem => ?_
    rw [List.mem_singleton.mp mem]
    exact checked
  | .typedef d => by
    rw [definitionKind, kindLaid]
    refine ((checks_typeSpec strict t d.type).seq (Checks.report _)).weaken ?_
    rintro ⟨⟨fit, inner⟩, quiet⟩ x mem
    rcases List.mem_append.mp mem with mem | mem
    · exact inner x mem
    · obtain ⟨declarator, declared, rfl⟩ := List.mem_map.mp mem
      exact ⟨fit, positive_of_declarators quiet declarator declared⟩
  | .const d => by
    rw [definitionKind, kindLaid]
    refine (checks_typeSpec strict t d.type).weaken fun _ x mem => ?_
    rw [List.mem_singleton.mp mem]
    trivial
  | .exception d => by
    rw [definitionKind, kindLaid]
    refine ((Checks.report _).seq (checks_members strict t d.members)).weaken ?_
    rintro ⟨quiet, fit, inner⟩ x mem
    rcases List.mem_cons.mp mem with rfl | mem
    · exact ⟨nodup_of_uniqueMembers quiet, fit⟩
    · exact inner x mem
  | .native name => by
    rw [definitionKind, kindLaid]
    refine Checks.skip fun x mem => ?_
    rw [List.mem_singleton.mp mem]
    trivial
  | .interface ⟨name, _, _, body⟩ => by
    rw [definitionKind, kindLaid]
    exact (checks_exports strict t body).weaken (checked_closed name .interface)
  | .value ⟨name, _, _, _, _, body⟩ => by
    rw [definitionKind, kindLaid]
    exact (checks_exports strict t body).weaken (checked_closed name .value)
  | .event ⟨name, _, _, _, _, body⟩ => by
    rw [definitionKind, kindLaid]
    exact (checks_exports strict t body).weaken (checked_closed name .event)
  | .valueBox d => by
    rw [definitionKind, kindLaid]
    refine (checks_typeSpec strict t d.type).weaken fun _ x mem => ?_
    rw [List.mem_singleton.mp mem]
    trivial
  | .component ⟨name, _, _, body⟩ => by
    rw [definitionKind, kindLaid]
    exact (checks_exports strict t body).weaken (checked_closed name .component)
  | .home ⟨name, _, _, _, _, body⟩ => by
    rw [definitionKind, kindLaid]
    exact (checks_exports strict t body).weaken (checked_closed name .home)
  | .forward _ => by
    rw [definitionKind, kindLaid]
    exact Checks.skip (by simp)
  | .typeId _ => by
    rw [definitionKind, kindLaid]
    exact Checks.skip (by simp)
  | .typePrefix _ => by
    rw [definitionKind, kindLaid]
    exact Checks.skip (by simp)
  | .annotationDecl _ => by
    rw [definitionKind, kindLaid]
    exact Checks.skip (by simp)

theorem checks_definitions (strict : Bool) (t : SymbolTable) : (ds : List Definition) →
    Checks strict t (definitions ds) (∀ x ∈ allLaid ds, Checked t x)
  | [] => by
    rw [definitions, allLaid]
    exact Checks.skip (by simp)
  | d :: ds => by
    rw [definitions, allLaid]
    exact ((checks_definition strict t d).seq (checks_definitions strict t ds)).weaken
      fun ⟨first, rest⟩ x mem => (List.mem_append.mp mem).elim (first x) (rest x)

theorem checks_exports (strict : Bool) (t : SymbolTable) : (es : List (Export Definition)) →
    Checks strict t (exports es) (∀ x ∈ exportLaid es, Checked t x)
  | [] => by
    rw [exports, exportLaid]
    exact Checks.skip (by simp)
  | .definition d :: rest => by
    rw [exports, exportLaid]
    exact ((checks_definition strict t d).seq (checks_exports strict t rest)).weaken
      fun ⟨first, rest⟩ x mem => (List.mem_append.mp mem).elim (first x) (rest x)
  | .stateMember m :: rest => by
    rw [exports, exportLaid]
    exact ((checks_members strict t [m.member]).seq (checks_exports strict t rest)).weaken And.right
  | .attribute _ :: rest => by
    rw [exports, exportLaid]
    exact checks_exports strict t rest
  | .operation _ :: rest => by
    rw [exports, exportLaid]
    exact checks_exports strict t rest
  | .initializer _ :: rest => by
    rw [exports, exportLaid]
    exact checks_exports strict t rest
  | .port _ :: rest => by
    rw [exports, exportLaid]
    exact checks_exports strict t rest

end

end Rules

open Rules

/-- A unit without breaches that are errors keeps the rules, and declares no name twice. -/
theorem checked_of_quiet {strict : Bool} (s : Specification) (t : SymbolTable)
    (quiet : Quiet strict (breachesOf s t)) :
    (∀ x ∈ s.laid, Checked t x) ∧ t.redeclarations = [] := by
  obtain ⟨bs, run, claim⟩ := checks_definitions strict t s.definitions ⟨[], []⟩
  have breaches : breachesOf s t =
      Rules.redeclarations t ++ bs ++ Rules.danglingForwards t := by
    rw [← List.nil_append bs, ← run]
    rfl
  rw [breaches, quiet_append, quiet_append] at quiet
  refine ⟨claim quiet.1.2, ?_⟩
  cases redeclared : t.redeclarations with
  | nil => rfl
  | cons r rs =>
    have first := quiet.1.1
    rw [Rules.redeclarations, redeclared, List.map_cons] at first
    exact absurd first (not_quiet_cons rfl)

end Idl
