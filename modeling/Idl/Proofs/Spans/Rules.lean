import Idl.Proofs.Binding.Trace
import Idl.Proofs.Rules.Checked
import Idl.Proofs.Spans.Scope

/-!
Rules keep to good places: over a tree with good places, and a table whose reports stand at such,
so do the breaches. Main statement: `placed_breachesOf`.
-/

set_option autoImplicit false

namespace Idl

namespace Rules

variable {P : Span → Prop}

/-- The breaches stand at good places. -/
def Good (P : Span → Prop) (bs : Breaches) : Prop := ∀ b ∈ bs, P b.span

theorem good_nil : Good P [] := fun _ mem => nomatch mem

theorem good_append {as bs : Breaches} : Good P (as ++ bs) ↔ Good P as ∧ Good P bs :=
  List.forall_mem_append

theorem good_cons {b : Breach} {bs : Breaches} : Good P (b :: bs) ↔ P b.span ∧ Good P bs :=
  List.forall_mem_cons

theorem good_one (violation : Violation) {span : Span} (place : P span) :
    Good P [⟨violation, span⟩] :=
  good_cons.mpr ⟨place, good_nil⟩

theorem good_flatMap {α : Type} {f : α → Breaches} {xs : List α} (each : ∀ x ∈ xs, Good P (f x)) :
    Good P (xs.flatMap f) := by
  intro b mem
  obtain ⟨x, inside, mem⟩ := List.mem_flatMap.mp mem
  exact each x inside b mem

/-! Single declarations. -/

theorem good_duplicates (violation : Ident → Span → Violation) {names : List Ident}
    (placed : ∀ n ∈ names, n.Placed P) (seen : List Ident) :
    Good P (duplicates violation seen names) := by
  induction names generalizing seen with
  | nil => exact good_nil
  | cons name rest ih =>
    rw [List.forall_mem_cons] at placed
    rw [duplicates]
    split
    · exact good_cons.mpr ⟨placed.1, ih placed.2 seen⟩
    · exact ih placed.2 _

theorem good_uniqueMembers (noun : String) (owner : Ident) {names : List Ident}
    (placed : ∀ n ∈ names, n.Placed P) : Good P (uniqueMembers noun owner names) :=
  good_duplicates _ placed []

theorem good_positive (noun : String) {e : ConstExpr} (placed : e.Placed P) :
    Good P (positive noun e) := by
  rw [positive]
  split
  · split
    · exact good_one _ placed.span
    · exact good_nil
  · exact good_nil

theorem good_positive? (noun : String) {e : Option ConstExpr} (placed : ∀ x ∈ e, x.Placed P) :
    Good P (positive? noun e) :=
  good_flatMap fun x mem => good_positive noun (placed x (Option.mem_toList.mp mem))

theorem good_dims {d : Declarator} (placed : d.Placed P) : Good P (dims d) :=
  good_flatMap fun e mem => good_positive _ (placed.dims e mem)

theorem good_declarators {ds : List Declarator} (placed : ∀ d ∈ ds, d.Placed P) :
    Good P (ds.flatMap dims) :=
  good_flatMap fun d mem => good_dims (placed d mem)

theorem good_fixedArgs {digits scale : ConstExpr} (first : digits.Placed P)
    (second : scale.Placed P) : Good P (fixedArgs digits scale) := by
  rw [fixedArgs]
  split
  · exact good_nil
  · split
    · exact good_one _ first.span
    · split
      · split
        · exact good_one _ second.span
        · exact good_nil
      · exact good_nil

theorem good_bitBound {as : List AnnotationUse} (placed : ∀ a ∈ as, a.Placed P) (max : Int) :
    Good P (bitBound as max).2 ∧ ∀ bound ∈ (bitBound as max).1, P bound.2 := by
  rw [bitBound]
  split
  · next a _ found _ =>
    have place : P a.span := (placed a (List.mem_of_find?_eq_some found)).span
    split
    · exact ⟨good_nil, fun _ mem => Option.some.inj mem ▸ place⟩
    · exact ⟨good_one _ place, fun _ mem => absurd mem (Option.not_mem_none _)⟩
  · exact ⟨good_nil, fun _ mem => absurd mem (Option.not_mem_none _)⟩

theorem good_enumType {as : List AnnotationUse} (placed : ∀ a ∈ as, a.Placed P) (t : EnumType) :
    Good P (enumType as t) := by
  obtain ⟨breaches, bound⟩ := good_bitBound placed maxEnumBits
  rw [enumType]
  split
  · next eq =>
    rw [eq] at breaches bound
    dsimp only
    split
    · exact good_append.mpr ⟨breaches, good_one _ (bound _ rfl)⟩
    · exact breaches
  · next eq =>
    rw [eq] at breaches
    exact breaches

theorem good_positions (bitmask : Ident) (bound : Int) {flags : List (Enumerator × Int)}
    (placed : ∀ f ∈ flags, f.1.name.Placed P) (used : List (Int × Ident)) :
    Good P (positions bitmask bound used flags) := by
  induction flags generalizing used with
  | nil => exact good_nil
  | cons flag rest ih =>
    obtain ⟨v, position⟩ := flag
    rw [List.forall_mem_cons] at placed
    rw [positions]
    split
    · exact good_cons.mpr ⟨placed.1, ih placed.2 used⟩
    · split
      · exact good_cons.mpr ⟨placed.1, ih placed.2 used⟩
      · exact ih placed.2 _

theorem good_bitmaskType {as : List AnnotationUse} (placed : ∀ a ∈ as, a.Placed P)
    {t : BitmaskType} (placed' : t.Placed P) : Good P (bitmaskType as t) := by
  have names : Good P (uniqueMembers "bitmask" t.name (t.values.map (·.name))) :=
    good_uniqueMembers _ _ (List.forall_mem_map.mpr fun v mem => (placed'.values v mem).name)
  have flags (bound : Int) : Good P (positions t.name bound []
      (t.values.zip (flagPositions 0 t.values))) :=
    good_positions _ _ (fun f mem => (placed'.values f.1 (List.of_mem_zip mem).1).name) []
  have breaches := (good_bitBound placed maxBits).1
  simp only [bitmaskType]
  split
  · next eq =>
    rw [eq] at breaches
    exact good_append.mpr ⟨good_append.mpr ⟨names, breaches⟩, flags _⟩
  · next eq =>
    rw [eq] at breaches
    split
    · exact good_append.mpr ⟨names, breaches⟩
    · exact good_append.mpr ⟨good_append.mpr ⟨names, breaches⟩, flags _⟩

theorem good_bitfieldWidth {f : Bitfield} (placed : f.Placed P) : Good P (bitfieldWidth f).2 := by
  rw [bitfieldWidth]
  split
  · exact good_nil
  · split
    · exact good_nil
    · exact good_one _ placed.width.span

theorem good_caseLabels (union : Ident) {ls : List CaseLabel} (placed : ∀ l ∈ ls, l.Placed P)
    (seen : Labels) : Good P (caseLabels union seen ls).2 := by
  induction ls generalizing seen with
  | nil => exact good_nil
  | cons l rest ih =>
    rw [List.forall_mem_cons] at placed
    cases l with
    | value e =>
      rw [caseLabels]
      split
      · exact ih placed.2 seen
      · split
        · exact good_cons.mpr ⟨ConstExpr.Placed.span placed.1, ih placed.2 seen⟩
        · exact ih placed.2 _
    | default span =>
      rw [caseLabels]
      split
      · exact good_cons.mpr ⟨placed.1, ih placed.2 seen⟩
      · exact ih placed.2 _

theorem placed_memberNames {ms : List (Member TypeSpec)} (placed : membersPlaced P ms) :
    ∀ n ∈ memberNames ms, n.Placed P := by
  intro n mem
  obtain ⟨m, inside, mem⟩ := List.mem_flatMap.mp mem
  obtain ⟨d, declared, rfl⟩ := List.mem_map.mp mem
  exact (((membersPlaced_iff ms).mp placed m inside).declarators d declared).name

theorem placed_caseNames {cs : List (UnionCase TypeSpec)} (placed : casesPlaced P cs) :
    ∀ n ∈ cs.map (·.declarator.name), n.Placed P :=
  List.forall_mem_map.mpr fun c mem => ((casesPlaced_iff cs).mp placed c mem).declarator.name

/-! The walk. -/

/-- A step of the walk keeps breaches at good places. -/
def Points (P : Span → Prop) (t : SymbolTable) (p : CheckM Unit) : Prop :=
  ∀ s, Good P s.breaches → Good P ((p.run t).run s).2.breaches

namespace Points

variable {t : SymbolTable} {p q : CheckM Unit}

theorem skip : Points P t (pure ()) := fun _ good => good

theorem report {bs : Breaches} (good : Good P bs) : Points P t (report bs) :=
  fun _ before => good_append.mpr ⟨before, good⟩

theorem seq (first : Points P t p) (second : Points P t q) : Points P t (do p; q) :=
  fun s good => second _ (first s good)

/-- What is only looked up breaks no rule. -/
theorem looked {α : Type} {p : CheckM α} {k : α → CheckM Unit}
    (silent : ∀ s, ((p.run t).run s).2 = s) (points : ∀ a, Points P t (k a)) :
    Points P t (p >>= k) := by
  intro s good
  have same : ((p >>= k).run t).run s =
      ((k ((p.run t).run s).1).run t).run ((p.run t).run s).2 := rfl
  rw [same, silent]
  exact points _ s good

end Points

variable {t : SymbolTable}

theorem points_recordTotal (s : BitsetType) (total : Int) : Points P t (recordTotal s total) := by
  refine Points.looked (fun _ => rfl) fun table => ?_
  split
  · exact fun _ good => good
  · exact Points.skip

theorem points_bitsetType {s : BitsetType} (placed : s.Placed P) : Points P t (bitsetType s) := by
  have names : ∀ n ∈ s.bitfields.flatMap (·.names), n.Placed P := by
    intro n mem
    obtain ⟨f, inside, mem⟩ := List.mem_flatMap.mp mem
    exact (placed.bitfields f inside).names n mem
  have widths : Good P ((s.bitfields.map bitfieldWidth).flatMap (·.2)) := by
    refine good_flatMap fun field mem => ?_
    obtain ⟨f, inside, rfl⟩ := List.mem_map.mp mem
    exact good_bitfieldWidth (placed.bitfields f inside)
  refine (Points.report (good_uniqueMembers _ _ names)).seq (Points.looked (fun _ => rfl)
    fun st => (Points.report widths).seq ?_)
  dsimp only
  split
  · exact (Points.report (good_one _ placed.name)).seq (points_recordTotal s _)
  · exact points_recordTotal s _

theorem points_discriminant (union : Ident) {d : SwitchType TypeSpec} (place : P d.span) :
    Points P t (discriminant union d) := by
  refine Points.looked (fun _ => rfl) fun table => ?_
  split
  · exact Points.report (good_one _ place)
  · exact Points.skip

mutual

theorem points_typeSpec (t : SymbolTable) : (τ : TypeSpec) → τ.Placed P → Points P t (typeSpec τ)
  | .primitive _, _ => by rw [typeSpec]; exact .skip
  | .named _, _ => by rw [typeSpec]; exact .skip
  | .sequence element bound, placed => by
    rw [TypeSpec.Placed] at placed
    rw [typeSpec]
    exact (points_typeSpec t element placed.1).seq (.report (good_positive? _ placed.2))
  | .set element bound, placed => by
    rw [TypeSpec.Placed] at placed
    rw [typeSpec]
    exact (points_typeSpec t element placed.1).seq (.report (good_positive? _ placed.2))
  | .map key value bound, placed => by
    rw [TypeSpec.Placed] at placed
    rw [typeSpec]
    exact (points_typeSpec t key placed.1).seq ((points_typeSpec t value placed.2.1).seq
      (.report (good_positive? _ placed.2.2)))
  | .string bound, placed => by
    rw [TypeSpec.Placed] at placed
    rw [typeSpec]
    exact .report (good_positive? _ placed)
  | .wstring bound, placed => by
    rw [TypeSpec.Placed] at placed
    rw [typeSpec]
    exact .report (good_positive? _ placed)
  | .fixed none, _ => by rw [typeSpec]; exact .skip
  | .fixed (some (digits, scale)), placed => by
    rw [TypeSpec.Placed] at placed
    rw [typeSpec]
    exact .report (good_fixedArgs placed.1 placed.2)
  | .struct ⟨name, base, fields, span⟩, placed => by
    rw [TypeSpec.Placed] at placed
    rw [typeSpec]
    exact (Points.report (good_uniqueMembers _ _ (placed_memberNames placed.2.2))).seq
      (points_members t fields placed.2.2)
  | .union ⟨name, ⟨as, type, span⟩, cases, _⟩, placed => by
    rw [TypeSpec.Placed] at placed
    rw [typeSpec]
    have inCases := points_unionCases t name ⟨[], none⟩ cases placed.2.2.2.2
    refine (Points.report (good_uniqueMembers _ _ (placed_caseNames placed.2.2.2.2))).seq ?_
    split
    · exact inCases
    · exact (points_typeSpec t type placed.2.2.1).seq
        ((points_discriminant name (d := ⟨as, type, span⟩) placed.2.2.2.1).seq inCases)
  | .enum e, placed => by
    rw [typeSpec]
    exact .report (good_enumType (List.forall_mem_nil _) e)
  | .bitset s, placed => by
    rw [TypeSpec.Placed] at placed
    rw [typeSpec]
    exact points_bitsetType placed
  | .bitmask s, placed => by
    rw [TypeSpec.Placed] at placed
    rw [typeSpec]
    exact .report (good_bitmaskType (List.forall_mem_nil _) placed)

theorem points_members (t : SymbolTable) : (ms : List (Member TypeSpec)) → membersPlaced P ms →
    Points P t (members ms)
  | [], _ => by rw [members]; exact .skip
  | ⟨as, type, ds, span⟩ :: rest, placed => by
    rw [membersPlaced] at placed
    rw [members]
    exact (points_typeSpec t type placed.1.2.1).seq
      ((Points.report (good_declarators placed.1.2.2)).seq (points_members t rest placed.2))

theorem points_unionCases (t : SymbolTable) (union : Ident) (seen : Labels) :
    (cs : List (UnionCase TypeSpec)) → casesPlaced P cs → Points P t (unionCases union seen cs)
  | [], _ => by rw [unionCases]; exact .skip
  | ⟨ls, as, type, d, span⟩ :: rest, placed => by
    rw [casesPlaced] at placed
    rw [unionCases]
    exact (Points.report (good_caseLabels union placed.1.1 seen)).seq
      ((points_typeSpec t type placed.1.2.2.1).seq
        ((Points.report (good_dims placed.1.2.2.2)).seq
          (points_unionCases t union _ rest placed.2)))

end

mutual

theorem points_definition (t : SymbolTable) : (d : Definition) → d.Placed P →
    Points P t (definition d)
  | ⟨as, kind, _⟩, placed => by
    rw [Definition.Placed] at placed
    rw [definition]
    exact points_definitionKind t as placed.1 kind placed.2

theorem points_definitionKind (t : SymbolTable) (as : List AnnotationUse)
    (annotated : ∀ a ∈ as, a.Placed P) : (kind : DefinitionKind Definition) → kindPlaced P kind →
    Points P t (definitionKind as kind)
  | .module ⟨_, ds⟩, placed => by
    rw [kindPlaced] at placed
    rw [definitionKind]
    exact points_definitions t ds placed.2
  | .struct s, placed => by
    rw [kindPlaced] at placed
    rw [definitionKind]
    exact points_typeSpec t (.struct s) placed
  | .union u, placed => by
    rw [kindPlaced] at placed
    rw [definitionKind]
    exact points_typeSpec t (.union u) placed
  | .enum e, _ => by
    rw [definitionKind]
    exact .report (good_enumType annotated e)
  | .bitset s, placed => by
    rw [kindPlaced] at placed
    rw [definitionKind]
    exact points_bitsetType placed
  | .bitmask s, placed => by
    rw [kindPlaced] at placed
    rw [definitionKind]
    exact .report (good_bitmaskType annotated placed)
  | .typedef d, placed => by
    rw [kindPlaced] at placed
    rw [definitionKind]
    exact (points_typeSpec t d.type placed.type).seq (.report (good_declarators placed.declarators))
  | .const d, placed => by
    rw [kindPlaced] at placed
    rw [definitionKind]
    exact points_typeSpec t d.type placed.type
  | .exception d, placed => by
    rw [kindPlaced] at placed
    rw [definitionKind]
    exact (Points.report (good_uniqueMembers _ _ (placed_memberNames placed.members))).seq
      (points_members t d.members placed.members)
  | .interface ⟨_, _, _, body⟩, placed => by
    rw [kindPlaced] at placed
    rw [definitionKind]
    exact points_exports t body placed.2
  | .value ⟨_, _, _, _, _, body⟩, placed => by
    rw [kindPlaced] at placed
    rw [definitionKind]
    exact points_exports t body placed.2
  | .event ⟨_, _, _, _, _, body⟩, placed => by
    rw [kindPlaced] at placed
    rw [definitionKind]
    exact points_exports t body placed.2
  | .component ⟨_, _, _, body⟩, placed => by
    rw [kindPlaced] at placed
    rw [definitionKind]
    exact points_exports t body placed.2
  | .home ⟨_, _, _, _, _, body⟩, placed => by
    rw [kindPlaced] at placed
    rw [definitionKind]
    exact points_exports t body placed.2
  | .valueBox d, placed => by
    rw [kindPlaced] at placed
    rw [definitionKind]
    exact points_typeSpec t d.type placed.type
  | .native _, _ => by rw [definitionKind]; exact .skip
  | .forward _, _ => by rw [definitionKind]; exact .skip
  | .typeId _, _ => by rw [definitionKind]; exact .skip
  | .typePrefix _, _ => by rw [definitionKind]; exact .skip
  | .annotationDecl _, _ => by rw [definitionKind]; exact .skip

theorem points_definitions (t : SymbolTable) : (ds : List Definition) → allPlaced P ds →
    Points P t (definitions ds)
  | [], _ => by rw [definitions]; exact .skip
  | d :: ds, placed => by
    rw [allPlaced] at placed
    rw [definitions]
    exact (points_definition t d placed.1).seq (points_definitions t ds placed.2)

theorem points_exports (t : SymbolTable) : (es : List (Export Definition)) → exportsPlaced P es →
    Points P t (exports es)
  | [], _ => by rw [exports]; exact .skip
  | .definition d :: rest, placed => by
    rw [exportsPlaced] at placed
    rw [exports]
    exact (points_definition t d placed.1).seq (points_exports t rest placed.2)
  | .stateMember m :: rest, placed => by
    rw [exportsPlaced] at placed
    rw [exports]
    exact (points_members t [m.member] ((membersPlaced_iff _).mpr (by simpa using placed.1))).seq
      (points_exports t rest placed.2)
  | .attribute _ :: rest, placed => by
    rw [exportsPlaced] at placed
    rw [exports]
    exact points_exports t rest placed
  | .operation _ :: rest, placed => by
    rw [exportsPlaced] at placed
    rw [exports]
    exact points_exports t rest placed
  | .initializer _ :: rest, placed => by
    rw [exportsPlaced] at placed
    rw [exports]
    exact points_exports t rest placed
  | .port _ :: rest, placed => by
    rw [exportsPlaced] at placed
    rw [exports]
    exact points_exports t rest placed

end

end Rules

open Rules

variable {P : Span → Prop}

theorem symbol_of_mem_toList {t : SymbolTable} {id : SymbolId} {s : Symbol}
    (mem : (id, s) ∈ t.toList) : t.symbol id = s := by
  obtain ⟨⟨s', id'⟩, inside, same⟩ := List.mem_map.mp mem
  cases same
  have stored : t.symbols[id]? = some s := by
    rw [← Array.getElem?_toList]
    exact List.mem_zipIdx_iff_getElem?.mp inside
  rw [SymbolTable.symbol, stored, Option.getD_some]

theorem good_danglingForwards {t : SymbolTable} (awaits : t.Awaits P) :
    Good P (Rules.danglingForwards t) := by
  intro b mem
  obtain ⟨⟨id, s⟩, dangling, rfl⟩ := List.mem_map.mp mem
  obtain ⟨listed, forward⟩ := List.mem_filter.mp dangling
  have stored := symbol_of_mem_toList listed
  have place := awaits id (stored ▸ forward)
  rw [stored] at place
  exact place

/-- The breaches of a unit stand at good places, once binding is through with its table. -/
theorem placed_breachesOf {s : Specification} (placed : allPlaced P s.definitions)
    {t u : SymbolTable} (same : SameFrame t u) (awaits : t.Awaits P)
    (redeclared : ∀ r ∈ t.redeclarations, P r.span) : Good P (breachesOf s u) := by
  have walk := points_definitions u s.definitions placed ⟨[], []⟩ good_nil
  have awaits : u.Awaits P := by
    intro i forward
    rw [same.aspect Symbol.span (fun _ => rfl)]
    exact awaits i (same.isForward i ▸ forward)
  refine good_append.mpr ⟨good_append.mpr ⟨?_, walk⟩, good_danglingForwards awaits⟩
  rw [Rules.redeclarations, same.redeclarations]
  exact List.forall_mem_map.mpr redeclared

end Idl
