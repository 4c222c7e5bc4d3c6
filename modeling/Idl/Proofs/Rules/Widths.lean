import Idl.Proofs.Rules.Checked

/-!
The bits of bitsets as the rules count them, one bitset after the other in the order of the
document. The rules also look into state members, constants and value boxes, whose types have no
layouts. Main statement: `weighed_of_quiet`.
-/

set_option autoImplicit false

namespace Idl

namespace Rules

variable {strict : Bool} {t : SymbolTable}

/-! Totals. -/

/-- The bits of a bitset over what was counted before it. A bitfield counts once, whatever names it
has. -/
def total (widths : List (SymbolId × Int)) (b : BitsetType) : Int :=
  let inherited := ((b.base.bind (·.target)).bind fun id => widths.lookup id).getD 0
  (b.bitfields.map bitfieldWidth).foldl (fun total field => total + field.1) inherited

/-- The widths once a bitset has been counted. -/
def recorded (t : SymbolTable) (widths : List (SymbolId × Int)) (b : BitsetType) :
    List (SymbolId × Int) :=
  match t.definedAt? b.name.span with
  | some id => (id, total widths b) :: widths
  | none => widths

/-- No total of the bitsets is beyond the limit. -/
def WithinLimit (t : SymbolTable) : List (SymbolId × Int) → List BitsetType → Prop
  | _, [] => True
  | widths, b :: bs => total widths b ≤ maxBits ∧ WithinLimit t (recorded t widths b) bs

theorem withinLimit_append (widths : List (SymbolId × Int)) (as bs : List BitsetType) :
    WithinLimit t widths (as ++ bs) ↔
      WithinLimit t widths as ∧ WithinLimit t (as.foldl (recorded t) widths) bs := by
  induction as generalizing widths with
  | nil => simp [WithinLimit]
  | cons a as ih =>
    rw [List.cons_append, WithinLimit, WithinLimit, ih, List.foldl_cons, and_assoc]

/-- What was recorded is within the limit. -/
theorem le_of_mem_recorded (bs : List BitsetType) {widths : List (SymbolId × Int)}
    (before : ∀ w ∈ widths, w.2 ≤ maxBits) (within : WithinLimit t widths bs) :
    ∀ w ∈ bs.foldl (recorded t) widths, w.2 ≤ maxBits := by
  induction bs generalizing widths with
  | nil => exact before
  | cons b bs ih =>
    obtain ⟨fits, rest⟩ := within
    refine ih (fun w mem => ?_) rest
    rw [recorded] at mem
    split at mem
    · rcases List.mem_cons.mp mem with rfl | mem
      · exact fits
      · exact before w mem
    · exact before w mem

/-! The walk. -/

/-- A step of the walk counts the bitsets one after the other, and reports one that is beyond the
limit. -/
def Weighs (strict : Bool) (t : SymbolTable) (p : CheckM Unit) (bs : List BitsetType) : Prop :=
  ∀ s, ((p.run t).run s).2.widths = bs.foldl (recorded t) s.widths ∧
    ∃ reported, ((p.run t).run s).2.breaches = s.breaches ++ reported ∧
      (Quiet strict reported → WithinLimit t s.widths bs)

namespace Weighs

variable {p q : CheckM Unit} {as bs : List BitsetType}

theorem skip : Weighs strict t (pure ()) [] :=
  fun s => ⟨rfl, [], (List.append_nil s.breaches).symm, fun _ => trivial⟩

theorem report (reported : Breaches) : Weighs strict t (report reported) [] :=
  fun _ => ⟨rfl, reported, rfl, fun _ => trivial⟩

theorem seq (first : Weighs strict t p as) (second : Weighs strict t q bs) :
    Weighs strict t (do p; q) (as ++ bs) := by
  intro s
  obtain ⟨widths, reported, run, fits⟩ := first s
  obtain ⟨widths', reported', run', fits'⟩ := second ((p.run t).run s).2
  refine ⟨?_, reported ++ reported', ?_, fun quiet => ?_⟩
  · rw [List.foldl_append, ← widths]
    exact widths'
  · rw [← List.append_assoc, ← run]
    exact run'
  · rw [quiet_append] at quiet
    rw [withinLimit_append, ← widths]
    exact ⟨fits quiet.1, fits' quiet.2⟩

/-- A report in front counts nothing. -/
theorem reportThen (reported : Breaches) (second : Weighs strict t q bs) :
    Weighs strict t (do Rules.report reported; q) bs :=
  (report reported).seq second

/-- Nor does one behind. -/
theorem thenReport (first : Weighs strict t p bs) (reported : Breaches) :
    Weighs strict t (do p; Rules.report reported) bs := by
  have silent : Weighs strict t (Rules.report reported) [] := report reported
  have both := first.seq silent
  rwa [List.append_nil] at both

end Weighs

theorem run_recordTotal (b : BitsetType) (s : State) :
    ((recordTotal b (total s.widths b)).run t).run s =
      ((), { s with widths := recorded t s.widths b }) := by
  have looked : StateT.run (ReaderT.run (read : CheckM SymbolTable) t) s = pure (t, s) := rfl
  simp only [recordTotal, recorded, ReaderT.run_bind, StateT.run_bind, looked, pure_bind]
  cases t.definedAt? b.name.span <;> rfl

theorem weighs_bitsetType (b : BitsetType) : Weighs strict t (bitsetType b) [b] := by
  intro s
  -- what is reported before the total is looked at
  let reported := uniqueMembers "bitset" b.name (b.bitfields.flatMap (·.names)) ++
    (b.bitfields.map bitfieldWidth).flatMap (·.2)
  have unfolded : ((bitsetType b).run t).run s = ((if maxBits < total s.widths b then do
        report [⟨.bitsetWidth b.name.name (total s.widths b), b.name.span⟩]
        recordTotal b (total s.widths b)
      else recordTotal b (total s.widths b) : CheckM Unit).run t).run
        ⟨s.widths, s.breaches ++ reported⟩ := by
    rw [← List.append_assoc]
    rfl
  rw [unfolded]
  by_cases beyond : maxBits < total s.widths b
  · rw [if_pos beyond]
    have run := run_recordTotal (t := t) b ⟨s.widths, s.breaches ++ reported ++
      [⟨.bitsetWidth b.name.name (total s.widths b), b.name.span⟩]⟩
    refine ⟨congrArg (·.2.widths) run, _, (congrArg (·.2.breaches) run).trans
      (List.append_assoc ..), fun quiet => ?_⟩
    rw [quiet_append] at quiet
    exact absurd quiet.2 (not_quiet_cons rfl)
  · rw [if_neg beyond]
    have run := run_recordTotal (t := t) b ⟨s.widths, s.breaches ++ reported⟩
    exact ⟨congrArg (·.2.widths) run, reported, congrArg (·.2.breaches) run,
      fun _ => ⟨Int.not_lt.mp beyond, trivial⟩⟩

/-- The bitsets among declarations. -/
def bitsets (xs : List Laid) : List BitsetType := xs.filterMap Laid.bitset?

@[simp] theorem bitsets_append (xs ys : List Laid) :
    bitsets (xs ++ ys) = bitsets xs ++ bitsets ys := List.filterMap_append

theorem weighs_discriminant (union : Ident) (d : SwitchType TypeSpec) :
    Weighs strict t (discriminant union d) [] := by
  intro s
  have unfolded : ((discriminant union d).run t).run s =
      ((if (t.discriminantType? d.type).isNone then
          report [⟨.badDiscriminant d.type.text union.name, d.span⟩]
        else pure () : CheckM Unit).run t).run s := rfl
  rw [unfolded]
  split
  · exact Weighs.report _ s
  · exact Weighs.skip s

mutual

/-- In a type, the bitsets are counted that it defines in place. -/
theorem weighs_typeSpec (strict : Bool) (t : SymbolTable) : (τ : TypeSpec) →
    Weighs strict t (typeSpec τ) (bitsets τ.laid)
  | .struct ⟨name, base, fields, span⟩ => by
    rw [typeSpec, TypeSpec.laid]
    exact (weighs_members strict t fields).reportThen _
  | .union ⟨name, ⟨as, type, switchSpan⟩, cases, span⟩ => by
    rw [typeSpec, TypeSpec.laid]
    have inCases := weighs_unionCases strict t name ⟨[], none⟩ cases
    have union : bitsets (.union ⟨name, ⟨as, type, switchSpan⟩, cases, span⟩ ::
        (type.laid ++ caseLaid cases)) = bitsets type.laid ++ bitsets (caseLaid cases) :=
      bitsets_append _ _
    rw [union]
    refine Weighs.reportThen _ ?_
    split
    · next unbound =>
      rw [laid_of_isUnbound unbound]
      exact inCases
    · exact (weighs_typeSpec strict t type).seq ((weighs_discriminant name _).seq inCases)
  | .enum e => by
    rw [typeSpec, TypeSpec.laid]
    exact Weighs.report _
  | .bitset s => by
    rw [typeSpec, TypeSpec.laid]
    exact weighs_bitsetType s
  | .bitmask s => by
    rw [typeSpec, TypeSpec.laid]
    exact Weighs.report _
  | .sequence element bound => by
    rw [typeSpec, TypeSpec.laid]
    exact (weighs_typeSpec strict t element).thenReport _
  | .set element bound => by
    rw [typeSpec, TypeSpec.laid]
    exact (weighs_typeSpec strict t element).thenReport _
  | .map key value bound => by
    rw [typeSpec, TypeSpec.laid, bitsets_append]
    exact (weighs_typeSpec strict t key).seq ((weighs_typeSpec strict t value).thenReport _)
  | .primitive _ => by
    rw [typeSpec, TypeSpec.laid]
    exact Weighs.skip
  | .named _ => by
    rw [typeSpec, TypeSpec.laid]
    exact Weighs.skip
  | .string _ => by
    rw [typeSpec, TypeSpec.laid]
    exact Weighs.report _
  | .wstring _ => by
    rw [typeSpec, TypeSpec.laid]
    exact Weighs.report _
  | .fixed none => by
    rw [typeSpec, TypeSpec.laid]
    exact Weighs.skip
  | .fixed (some (_, _)) => by
    rw [typeSpec, TypeSpec.laid]
    exact Weighs.report _

theorem weighs_members (strict : Bool) (t : SymbolTable) : (ms : List (Member TypeSpec)) →
    Weighs strict t (members ms) (bitsets (memberLaid ms))
  | [] => by
    rw [members, memberLaid]
    exact Weighs.skip
  | ⟨as, type, ds, span⟩ :: rest => by
    rw [members, memberLaid, bitsets_append]
    exact (weighs_typeSpec strict t type).seq ((weighs_members strict t rest).reportThen _)

theorem weighs_unionCases (strict : Bool) (t : SymbolTable) (union : Ident) (seen : Labels) :
    (cs : List (UnionCase TypeSpec)) →
      Weighs strict t (unionCases union seen cs) (bitsets (caseLaid cs))
  | [] => by
    rw [unionCases, caseLaid]
    exact Weighs.skip
  | ⟨ls, as, type, d, span⟩ :: rest => by
    rw [unionCases, caseLaid, bitsets_append]
    exact ((weighs_typeSpec strict t type).seq ((weighs_unionCases strict t union
      (caseLabels union seen ls).1 rest).reportThen _)).reportThen _

end

/-! Definitions. -/

/-- The bitsets `ys` are the `bs`, in the same order, among others that are declared in `states` or
in `hidden`. -/
inductive Among (states hidden : List Declaration) : List BitsetType → List BitsetType → Prop
  | nil : Among states hidden [] []
  | own {bs ys : List BitsetType} (b : BitsetType) (rest : Among states hidden bs ys) :
      Among states hidden (b :: bs) (b :: ys)
  | state {bs ys : List BitsetType} {b : BitsetType} (mem : ⟨b.name, .defined .bitset⟩ ∈ states)
      (rest : Among states hidden bs ys) : Among states hidden bs (b :: ys)
  | hidden {bs ys : List BitsetType} {b : BitsetType} (mem : ⟨b.name, .defined .bitset⟩ ∈ hidden)
      (rest : Among states hidden bs ys) : Among states hidden bs (b :: ys)

namespace Among

variable {states states' hidden hidden' : List Declaration} {bs bs' ys ys' : List BitsetType}

theorem refl : (bs : List BitsetType) → Among [] [] bs bs
  | [] => .nil
  | b :: bs => .own b (refl bs)

theorem mono (among : Among states hidden bs ys) (sub : states ⊆ states')
    (sub' : hidden ⊆ hidden') : Among states' hidden' bs ys := by
  induction among with
  | nil => exact .nil
  | own b _ ih => exact .own b ih
  | state mem _ ih => exact .state (sub mem) ih
  | hidden mem _ ih => exact .hidden (sub' mem) ih

theorem append (first : Among states hidden bs ys) (second : Among states' hidden' bs' ys') :
    Among (states ++ states') (hidden ++ hidden') (bs ++ bs') (ys ++ ys') := by
  induction first with
  | nil => exact second.mono (List.subset_append_right _ _) (List.subset_append_right _ _)
  | own b _ ih => exact .own b ih
  | state mem _ ih => exact .state (List.mem_append_left _ mem) ih
  | hidden mem _ ih => exact .hidden (List.mem_append_left _ mem) ih

theorem ofStates (ys : List BitsetType)
    (declared : ∀ b ∈ ys, ⟨b.name, .defined .bitset⟩ ∈ states) : Among states [] [] ys := by
  induction ys with
  | nil => exact .nil
  | cons b ys ih =>
    exact .state (declared b List.mem_cons_self) (ih fun c mem => declared c (.tail b mem))

theorem ofHidden (ys : List BitsetType)
    (declared : ∀ b ∈ ys, ⟨b.name, .defined .bitset⟩ ∈ hidden) : Among [] hidden [] ys := by
  induction ys with
  | nil => exact .nil
  | cons b ys ih =>
    exact .hidden (declared b List.mem_cons_self) (ih fun c mem => declared c (.tail b mem))

theorem mem (among : Among states hidden bs ys) {b : BitsetType} (mem : b ∈ bs) : b ∈ ys := by
  induction among with
  | nil => exact mem
  | own c _ ih =>
    rcases List.mem_cons.mp mem with rfl | mem
    · exact List.mem_cons_self
    · exact List.mem_cons_of_mem _ (ih mem)
  | state _ _ ih => exact List.mem_cons_of_mem _ (ih mem)
  | hidden _ _ ih => exact List.mem_cons_of_mem _ (ih mem)

end Among

/-- A step of the walk counts the bitsets, and among them those that a state member, a constant or
a value box defines in place. -/
def Surveys (strict : Bool) (t : SymbolTable) (p : CheckM Unit) (states hidden : List Declaration)
    (bs : List BitsetType) : Prop :=
  ∃ ys, Among states hidden bs ys ∧ Weighs strict t p ys

namespace Surveys

variable {p q : CheckM Unit} {states states' hidden hidden' : List Declaration}
  {as bs : List BitsetType}

theorem of (weighs : Weighs strict t p bs) : Surveys strict t p [] [] bs := ⟨bs, .refl bs, weighs⟩

theorem seq (first : Surveys strict t p states hidden as)
    (second : Surveys strict t q states' hidden' bs) :
    Surveys strict t (do p; q) (states ++ states') (hidden ++ hidden') (as ++ bs) := by
  obtain ⟨ys, among, weighs⟩ := first
  obtain ⟨zs, among', weighs'⟩ := second
  exact ⟨ys ++ zs, among.append among', weighs.seq weighs'⟩

end Surveys

theorem declared_of_bitsets {τ : TypeSpec} {b : BitsetType} (mem : b ∈ bitsets τ.laid) :
    ⟨b.name, .defined .bitset⟩ ∈ τ.declarations := by
  obtain ⟨x, inside, eq⟩ := List.mem_filterMap.mp mem
  have declared := τ.declarations_of_laid x inside
  cases x with
  | bitset c =>
    obtain rfl := Option.some_inj.mp eq
    exact declared.subset List.mem_cons_self
  | _ => cases eq

theorem surveys_stateMember (strict : Bool) (t : SymbolTable) (m : StateMember) :
    Surveys strict t (members [m.member]) m.member.type.declarations [] [] := by
  refine ⟨_, .ofStates _ fun b mem => ?_, weighs_members strict t [m.member]⟩
  obtain ⟨_, as, type, ds, span⟩ := m
  rw [memberLaid, memberLaid, List.append_nil] at mem
  exact declared_of_bitsets mem

theorem surveys_hidden (strict : Bool) (t : SymbolTable) (τ : TypeSpec) :
    Surveys strict t (typeSpec τ) [] τ.declarations [] :=
  ⟨_, .ofHidden _ fun _ mem => declared_of_bitsets mem, weighs_typeSpec strict t τ⟩

theorem bitsets_typedefs (type : TypeSpec) (ds : List Declarator) :
    bitsets (ds.map (.typedef type)) = [] := by
  rw [bitsets, List.filterMap_eq_nil_iff]
  intro x mem
  obtain ⟨d, -, rfl⟩ := List.mem_map.mp mem
  rfl

mutual

/-- In a definition, the bitsets are counted that have layouts, and those that are defined where
there are none. -/
theorem surveys_definition (strict : Bool) (t : SymbolTable) : (d : Definition) →
    Surveys strict t (definition d) d.stateDeclarations d.hidden (bitsets d.laid)
  | ⟨as, kind, _⟩ => by
    rw [definition, Definition.stateDeclarations, Definition.hidden, Definition.laid]
    exact surveys_definitionKind strict t as kind

theorem surveys_definitionKind (strict : Bool) (t : SymbolTable) (as : List AnnotationUse) :
    (kind : DefinitionKind Definition) → Surveys strict t (definitionKind as kind)
      (kindStateDeclarations kind) (kindHidden kind) (bitsets (kindLaid as kind))
  | .module ⟨_, ds⟩ => by
    rw [definitionKind, kindStateDeclarations, kindHidden, kindLaid]
    exact surveys_definitions strict t ds
  | .struct s => by
    rw [definitionKind, kindStateDeclarations, kindHidden, kindLaid]
    exact .of (weighs_typeSpec strict t (.struct s))
  | .union u => by
    rw [definitionKind, kindStateDeclarations, kindHidden, kindLaid]
    exact .of (weighs_typeSpec strict t (.union u))
  | .enum e => by
    rw [definitionKind, kindStateDeclarations, kindHidden, kindLaid]
    exact .of (.report _)
  | .bitset s => by
    rw [definitionKind, kindStateDeclarations, kindHidden, kindLaid]
    exact .of (weighs_bitsetType s)
  | .bitmask s => by
    rw [definitionKind, kindStateDeclarations, kindHidden, kindLaid]
    exact .of (.report _)
  | .typedef d => by
    rw [definitionKind, kindStateDeclarations, kindHidden, kindLaid, bitsets_append,
      bitsets_typedefs, List.append_nil]
    exact .of ((weighs_typeSpec strict t d.type).thenReport _)
  | .const d => by
    rw [definitionKind, kindStateDeclarations, kindHidden, kindLaid]
    exact surveys_hidden strict t d.type
  | .exception d => by
    rw [definitionKind, kindStateDeclarations, kindHidden, kindLaid]
    exact .of ((weighs_members strict t d.members).reportThen _)
  | .interface ⟨_, _, _, body⟩ => by
    rw [definitionKind, kindStateDeclarations, kindHidden, kindLaid]
    exact surveys_exports strict t body
  | .value ⟨_, _, _, _, _, body⟩ => by
    rw [definitionKind, kindStateDeclarations, kindHidden, kindLaid]
    exact surveys_exports strict t body
  | .event ⟨_, _, _, _, _, body⟩ => by
    rw [definitionKind, kindStateDeclarations, kindHidden, kindLaid]
    exact surveys_exports strict t body
  | .component ⟨_, _, _, body⟩ => by
    rw [definitionKind, kindStateDeclarations, kindHidden, kindLaid]
    exact surveys_exports strict t body
  | .home ⟨_, _, _, _, _, body⟩ => by
    rw [definitionKind, kindStateDeclarations, kindHidden, kindLaid]
    exact surveys_exports strict t body
  | .valueBox d => by
    rw [definitionKind, kindStateDeclarations, kindHidden, kindLaid]
    exact surveys_hidden strict t d.type
  | .native _ => by
    rw [definitionKind, kindStateDeclarations, kindHidden, kindLaid]
    exact .of .skip
  | .forward _ => by
    rw [definitionKind, kindStateDeclarations, kindHidden, kindLaid]
    exact .of .skip
  | .typeId _ => by
    rw [definitionKind, kindStateDeclarations, kindHidden, kindLaid]
    exact .of .skip
  | .typePrefix _ => by
    rw [definitionKind, kindStateDeclarations, kindHidden, kindLaid]
    exact .of .skip
  | .annotationDecl _ => by
    rw [definitionKind, kindStateDeclarations, kindHidden, kindLaid]
    exact .of .skip

theorem surveys_definitions (strict : Bool) (t : SymbolTable) : (ds : List Definition) →
    Surveys strict t (definitions ds) (allStateDeclarations ds) (allHidden ds)
      (bitsets (allLaid ds))
  | [] => by
    rw [definitions, allStateDeclarations, allHidden, allLaid]
    exact .of .skip
  | d :: ds => by
    rw [definitions, allStateDeclarations, allHidden, allLaid, bitsets_append]
    exact (surveys_definition strict t d).seq (surveys_definitions strict t ds)

theorem surveys_exports (strict : Bool) (t : SymbolTable) : (es : List (Export Definition)) →
    Surveys strict t (exports es) (exportStateDeclarations es) (exportHidden es)
      (bitsets (exportLaid es))
  | [] => by
    rw [exports, exportStateDeclarations, exportHidden, exportLaid]
    exact .of .skip
  | .definition d :: rest => by
    rw [exports, exportStateDeclarations, exportHidden, exportLaid, bitsets_append]
    exact (surveys_definition strict t d).seq (surveys_exports strict t rest)
  | .stateMember m :: rest => by
    rw [exports, exportStateDeclarations, exportHidden, exportLaid]
    exact (surveys_stateMember strict t m).seq (surveys_exports strict t rest)
  | .attribute _ :: rest => by
    rw [exports, exportStateDeclarations, exportHidden, exportLaid]
    exact surveys_exports strict t rest
  | .operation _ :: rest => by
    rw [exports, exportStateDeclarations, exportHidden, exportLaid]
    exact surveys_exports strict t rest
  | .initializer _ :: rest => by
    rw [exports, exportStateDeclarations, exportHidden, exportLaid]
    exact surveys_exports strict t rest
  | .port _ :: rest => by
    rw [exports, exportStateDeclarations, exportHidden, exportLaid]
    exact surveys_exports strict t rest

end

/-- The totals that the rules have held against the limit. -/
def widths (s : Specification) (t : SymbolTable) : List (SymbolId × Int) :=
  (((definitions s.definitions).run t).run ⟨[], []⟩).2.widths

/-- The totals come from the bitsets `ys` of the unit, and all are within the limit. -/
structure Weighed (s : Specification) (t : SymbolTable) (ys : List BitsetType) : Prop where
  among : Among s.stateDeclarations s.hidden (bitsets s.laid) ys
  widths : widths s t = ys.foldl (recorded t) []
  within : WithinLimit t [] ys

end Rules

open Rules

/-- The bitsets of a unit without breaches that are errors. -/
theorem weighed_of_quiet {strict : Bool} (s : Specification) (t : SymbolTable)
    (quiet : Quiet strict (breachesOf s t)) : ∃ ys, Weighed s t ys := by
  obtain ⟨ys, among, weighs⟩ := surveys_definitions strict t s.definitions
  obtain ⟨widths, reported, run, within⟩ := weighs ⟨[], []⟩
  have breaches : breachesOf s t =
      Rules.redeclarations t ++ reported ++ Rules.danglingForwards t := by
    rw [← List.nil_append reported, ← run]
    rfl
  rw [breaches, quiet_append, quiet_append] at quiet
  exact ⟨ys, among, widths, within quiet.1.2⟩

end Idl
