import Idl.Document
import Idl.Proofs.Binding.Unit
import Idl.Proofs.Layout.Coverage
import Idl.Proofs.Layout.Entries
import Idl.Proofs.Rules.Checked
import Idl.Proofs.Scope.Walk

/-!
A document without errors: its declarations are all known to the finished table, bound, and within
the rules, and each has its entry in the model. Main statements: `clean_ofText` and
`Clean.get?_of_laid`.
-/

set_option autoImplicit false

namespace Idl

open Rules

/-- What holds of a unit by the way it was read. -/
structure WellPlaced (s : Specification) : Prop where
  apart : Apart s.declarations
  /-- What defines nothing is not declared anywhere. -/
  hidden : ∀ x ∈ s.hidden, x.name.span.offset ∉ s.declarations.map (·.name.span.offset)
  /-- A type written in place in a constant is not declared anywhere. -/
  unshared : ∀ d, Laid.const d ∈ s.laid → ∀ x ∈ d.type.declarations,
    x.name.span.offset ∉ s.declarations.map (·.name.span.offset)
  widths : ∀ t, Laid.bitset t ∈ s.laid → ∀ f ∈ t.bitfields, ∀ k ∈ f.type,
    k.bitWidth?.isSome = true

/-- A unit `s`, bound from a unit as it was read, over its finished table. -/
structure Clean (parsed s : Specification) (t : SymbolTable) : Prop where
  placed : WellPlaced parsed
  declarations : s.declarations = parsed.declarations
  hidden : s.hidden = parsed.hidden
  entered : Entered t s.declarations
  bound : List.Forall₂ (BoundAs t) parsed.laid s.laid
  checked : ∀ x ∈ s.laid, Checked t x
  quiet : t.redeclarations = []

theorem Entered.congr {t u : SymbolTable} {ds : List Declaration} (entered : Entered t ds)
    (same : SameFrame t u) (unfailed : u.Unfailed) : Entered u ds where
  places offset id found := entered.places offset id (by rw [← same.defining]; exact found)
  defined name kind mem := by
    obtain ⟨id, defines⟩ := entered.defined name kind mem
    exact ⟨id, (same.definedAt? _).trans defines.place, (same.kind id).trans defines.kind_eq,
      (same.isForward id).trans defines.complete, Nat.lt_of_lt_of_eq defines.used same.size.symm⟩
  modules := by
    simp only [same.definedAt?]
    exact entered.modules
  distinct := by
    simp only [same.definedAt?]
    exact entered.distinct
  sources id type := by
    simp only [same.definedAt?, same.kind] at type ⊢
    rcases entered.sources id type with awaited | source
    · exact .inl ⟨(same.isForward id).trans awaited.forward, by
        rw [same.kind]; exact awaited.announced⟩
    · exact .inr source
  listed := by
    simp only [same.definedAt?, same.member?, same.redeclarations]
    exact entered.listed
  unlike := by
    rw [same.redeclarations]
    exact entered.unlike
  unfailed := unfailed

/-- Analysis reports no error of a document that has none. -/
theorem Document.severity_ne_error {options : ParseOptions} {text : String}
    (ok : (Document.ofText options text).hasErrors = false) (d : Diagnostic)
    (mem : d ∈ (analyze options.strictForward
      (parseText options.maxNesting text).specification).diagnostics) : d.severity ≠ .error := by
  intro error
  have none := (Diagnostics.hasErrors_eq_false_iff _).mp ok
  refine List.not_mem_nil (a := d) ?_
  rw [← none, Diagnostics.errors, List.mem_filter]
  exact ⟨(Diagnostics.sorted_perm _).mem_iff.mpr (List.mem_append_right _ mem), by
    simp [Diagnostic.isError, error]⟩

/-- What an analysis without errors has found. -/
structure Unfailed (strictForward : Bool) (s : Specification) : Prop where
  mismatches : (buildScopes s).mismatches = []
  errors : (bindUnit s (buildScopes s).table).errors = []
  quiet : Quiet strictForward (breachesOf (bindUnit s (buildScopes s).table).specification
    (bindUnit s (buildScopes s).table).table)

theorem unfailed_of_severity {strictForward : Bool} {s : Specification}
    (free : ∀ d ∈ (analyze strictForward s).diagnostics, d.severity ≠ .error) :
    Unfailed strictForward s := by
  have reported (d : Diagnostic) (mem : d ∈
      (buildScopes s).mismatches.map ForwardMismatch.diagnostic ++
        (bindUnit s (buildScopes s).table).errors.map BindingError.diagnostic ++
        (breachesOf (bindUnit s (buildScopes s).table).specification
          (bindUnit s (buildScopes s).table).table).map (Breach.diagnostic strictForward)) :
      d.severity ≠ .error :=
    free d ((Diagnostics.sorted_perm _).mem_iff.mpr mem)
  refine ⟨?_, ?_, fun b mem => reported _ (List.mem_append_right _ (List.mem_map_of_mem mem))⟩
  · refine List.eq_nil_iff_forall_not_mem.mpr fun m mem => reported m.diagnostic ?_ rfl
    exact List.mem_append_left _ (List.mem_append_left _ (List.mem_map_of_mem mem))
  · refine List.eq_nil_iff_forall_not_mem.mpr fun e mem => reported e.diagnostic ?_ rfl
    exact List.mem_append_left _ (List.mem_append_right _ (List.mem_map_of_mem mem))

/-- A document of a well placed unit is clean unless it has errors. -/
theorem clean_ofText {options : ParseOptions} {text : String}
    (placed : WellPlaced (parseText options.maxNesting text).specification)
    (ok : (Document.ofText options text).hasErrors = false) :
    Clean (parseText options.maxNesting text).specification
      (Document.ofText options text).specification (Document.ofText options text).symbols := by
  have unfailed := unfailed_of_severity (Document.severity_ne_error ok)
  generalize parsed : (parseText options.maxNesting text).specification = s at placed unfailed
  have specification : (Document.ofText options text).specification =
      (bindUnit s (buildScopes s).table).specification := by rw [← parsed]; rfl
  have symbols : (Document.ofText options text).symbols =
      (bindUnit s (buildScopes s).table).table := by rw [← parsed]; rfl
  rw [specification, symbols]
  have entered := entered_buildScopes s placed.apart
  obtain ⟨same, constants, declarations, hidden, bound⟩ :=
    bound_of_bindUnit entered placed.apart unfailed.errors
  obtain ⟨checked, redeclared⟩ := checked_of_quiet _ _ unfailed.quiet
  refine ⟨placed, declarations, hidden, ?_, bound, checked, redeclared⟩
  rw [declarations]
  exact entered.congr same constants

/-! The entry of each declaration. -/

open Binding Layout

namespace Clean

variable {parsed s : Specification} {t : SymbolTable} {x y : Laid} {id : SymbolId}

theorem apart (clean : Clean parsed s t) : Apart s.declarations := by
  rw [clean.declarations]
  exact clean.placed.apart

theorem declared (_ : Clean parsed s t) (mem : x ∈ s.laid) : x.declaration ∈ s.declarations := by
  obtain ⟨rest, perm, -⟩ := s.split_declarations
  refine perm.mem_iff.mpr (List.mem_append_left _ (List.mem_append_left _ ?_))
  exact List.mem_map_of_mem mem

/-- No two declarations that have layouts share a name, nor does one of a state member. -/
theorem nodup_offsets (clean : Clean parsed s t) :
    (s.laid.map (·.name.span.offset) ++
      s.stateDeclarations.map (·.name.span.offset)).Nodup := by
  obtain ⟨rest, perm, -⟩ := s.split_declarations
  have nodup := (perm.map fun d : Declaration => d.name.span.offset).nodup_iff.mp clean.apart
  rw [List.map_append, List.map_append, List.map_map] at nodup
  exact nodup.sublist (List.sublist_append_left _ _)

theorem laid_unique (clean : Clean parsed s t) (mem : x ∈ s.laid) (mem' : y ∈ s.laid)
    (same : x.name = y.name) : x = y :=
  List.inj_on_of_nodup_map (List.Nodup.of_append_left clean.nodup_offsets) mem mem' (by rw [same])

theorem settledAt? (clean : Clean parsed s t) (mem : x ∈ s.laid) :
    ∃ id, t.settledAt? x.name = some id ∧ t.kind id = x.kind := by
  obtain ⟨id, defines⟩ := clean.entered.defined x.name x.kind (clean.declared mem)
  exact ⟨id, SymbolTable.settledAt?_eq_some_iff.mpr ⟨defines.place, defines.complete⟩,
    defines.kind_eq⟩

theorem kind_of_settledAt? (clean : Clean parsed s t) (mem : x ∈ s.laid)
    (place : t.settledAt? x.name = some id) : t.kind id = x.kind := by
  obtain ⟨other, found, kind⟩ := clean.settledAt? mem
  rw [place, Option.some_inj] at found
  rw [found, kind]

theorem eq_of_settledAt? (clean : Clean parsed s t) (mem : x ∈ s.laid) (mem' : y ∈ s.laid)
    (place : t.settledAt? x.name = some id) (place' : t.settledAt? y.name = some id) : x = y :=
  clean.laid_unique mem mem' (clean.entered.distinct x.name x.kind y.name y.kind id
    (clean.declared mem) (clean.declared mem')
    (SymbolTable.settledAt?_eq_some_iff.mp place).1
    (SymbolTable.settledAt?_eq_some_iff.mp place').1)

theorem describes (clean : Clean parsed s t) (mem : x ∈ s.laid) : ∃ kind, Describes t x kind := by
  cases x with
  | bitset a => exact ⟨_, 0, rfl⟩
  | const d =>
    obtain ⟨y, -, bound⟩ := exists_of_forall₂ clean.bound _ mem
    cases y with
    | const d' =>
      obtain ⟨-, constant, value, -⟩ := bound
      exact ⟨_, constant, value, rfl⟩
    | _ => exact bound.elim
  | closed name kind => exact ⟨_, "", rfl⟩
  | _ => exact ⟨_, rfl⟩

/-- Each declaration that has a layout has it in the entry of its symbol. -/
theorem get?_of_laid (clean : Clean parsed s t) (mem : x ∈ s.laid)
    (place : t.settledAt? x.name = some id) :
    ∃ e, (buildModel s t).get? id = some e ∧ Describes t x e.kind := by
  have known := get?_buildModel_isSome (.inl ⟨x, mem, place, clean.describes mem⟩)
  obtain ⟨e, found⟩ := Option.isSome_iff_exists.mp known
  refine ⟨e, found, ?_⟩
  have same := TypeModel.id_of_get? found
  rcases describes_of_mem (TypeModel.mem_of_get? found) with ⟨y, inside, entry⟩ | ⟨forward, -⟩
  · have place' := entry.place
    rw [same] at place'
    rw [clean.eq_of_settledAt? mem inside place place']
    exact entry.describes
  · rw [same, (SymbolTable.settledAt?_eq_some_iff.mp place).2] at forward
    cases forward

/-- The entry at the place of a declaration is the one that describes it. -/
theorem get?_of_definedAt? (clean : Clean parsed s t) (mem : x ∈ s.laid)
    (place : t.definedAt? x.name.span = some id) :
    ∃ e, (buildModel s t).get? id = some e ∧ Describes t x e.kind := by
  obtain ⟨settled, found, -⟩ := clean.settledAt? mem
  have same := (SymbolTable.settledAt?_eq_some_iff.mp found).1
  rw [place, Option.some_inj] at same
  exact clean.get?_of_laid mem (same ▸ found)

/-- The symbol of an entry for a typedef is a typedef. -/
theorem kind_of_typedef (clean : Clean parsed s t) {e : Entry} (mem : e ∈ (buildModel s t).entries)
    {layout : AliasLayout} (typedef : e.kind = .typedef layout) : t.kind e.id = .typedef := by
  rcases describes_of_mem mem with ⟨x, inside, entry⟩ | ⟨-, kind⟩
  · rw [clean.kind_of_settledAt? inside entry.place]
    have describes := entry.describes
    rw [typedef] at describes
    obtain ⟨_, _, rfl, -⟩ := describes.typedef
    rfl
  · rw [typedef] at kind
    cases kind

/-- Each typedef of the table has a declaration that is in the model. -/
theorem typedef_laid (clean : Clean parsed s t) (typedef : t.kind id = .typedef) :
    ∃ type d, Laid.typedef type d ∈ s.laid ∧ t.settledAt? d.name = some id := by
  rcases clean.entered.sources id (by rw [typedef]; rfl) with ⟨-, kind, other⟩ | ⟨name, mem, place⟩
  · rw [typedef] at other
    cases kind <;> cases other
  · rw [typedef] at mem
    obtain ⟨type, d, inside, rfl⟩ := s.typedef_laid mem
    obtain ⟨other, found, -⟩ := clean.settledAt? inside
    have place' := (SymbolTable.settledAt?_eq_some_iff.mp found).1
    have same := place.symm.trans place'
    rw [Option.some_inj] at same
    subst same
    exact ⟨type, d, inside, found⟩

end Clean

end Idl
