import Idl.Proofs.Binding.Points
import Idl.Proofs.Layout.Entries
import Idl.Proofs.Layout.Read
import Idl.Proofs.Scope.Enumerators

/-!
Constants are well typed from the start of binding to the model, and none fails in silence. Main
statement: `wellTyped_parseText`.
-/

set_option autoImplicit false

namespace Idl

/-! The constants of a model are values of its tree. -/

/-- The value that a constant gets in a model. -/
def Laid.value? : Laid → Option Constant
  | .const d => d.value.value
  | _ => none

/-- Types declare no constants. -/
def Valueless (xs : List Laid) : Prop := ∀ x ∈ xs, x.value? = none

theorem valueless_append {xs ys : List Laid} :
    Valueless (xs ++ ys) ↔ Valueless xs ∧ Valueless ys := List.forall_mem_append

theorem valueless_cons {x : Laid} {xs : List Laid} :
    Valueless (x :: xs) ↔ x.value? = none ∧ Valueless xs := List.forall_mem_cons

theorem valueless_nil : Valueless [] := List.forall_mem_nil _

mutual

theorem TypeSpec.valueless_laid : (τ : TypeSpec) → Valueless τ.laid
  | .struct ⟨_, _, fields, _⟩ => by
    rw [TypeSpec.laid]
    exact valueless_cons.mpr ⟨rfl, valueless_memberLaid fields⟩
  | .union ⟨_, ⟨_, type, _⟩, cases, _⟩ => by
    rw [TypeSpec.laid]
    exact valueless_cons.mpr ⟨rfl, valueless_append.mpr
      ⟨type.valueless_laid, valueless_caseLaid cases⟩⟩
  | .enum _ => by rw [TypeSpec.laid]; exact valueless_cons.mpr ⟨rfl, valueless_nil⟩
  | .bitset _ => by rw [TypeSpec.laid]; exact valueless_cons.mpr ⟨rfl, valueless_nil⟩
  | .bitmask _ => by rw [TypeSpec.laid]; exact valueless_cons.mpr ⟨rfl, valueless_nil⟩
  | .sequence element _ => by rw [TypeSpec.laid]; exact element.valueless_laid
  | .set element _ => by rw [TypeSpec.laid]; exact element.valueless_laid
  | .map key value _ => by
    rw [TypeSpec.laid]
    exact valueless_append.mpr ⟨key.valueless_laid, value.valueless_laid⟩
  | .primitive _ => by rw [TypeSpec.laid]; exact valueless_nil
  | .named _ => by rw [TypeSpec.laid]; exact valueless_nil
  | .string _ => by rw [TypeSpec.laid]; exact valueless_nil
  | .wstring _ => by rw [TypeSpec.laid]; exact valueless_nil
  | .fixed _ => by rw [TypeSpec.laid]; exact valueless_nil

theorem valueless_memberLaid : (ms : List (Member TypeSpec)) → Valueless (memberLaid ms)
  | [] => by rw [memberLaid]; exact valueless_nil
  | ⟨_, type, _, _⟩ :: rest => by
    rw [memberLaid]
    exact valueless_append.mpr ⟨type.valueless_laid, valueless_memberLaid rest⟩

theorem valueless_caseLaid : (cs : List (UnionCase TypeSpec)) → Valueless (caseLaid cs)
  | [] => by rw [caseLaid]; exact valueless_nil
  | ⟨_, _, type, _, _⟩ :: rest => by
    rw [caseLaid]
    exact valueless_append.mpr ⟨type.valueless_laid, valueless_caseLaid rest⟩

end

/-- The values of the declarations are among the constants. -/
def ValuesIn (cs : List Constant) (xs : List Laid) : Prop :=
  ∀ x ∈ xs, ∀ c, x.value? = some c → c ∈ cs

namespace ValuesIn

variable {cs cs' : List Constant} {xs ys : List Laid} {x : Laid}

theorem of_valueless (valueless : Valueless xs) (cs : List Constant) : ValuesIn cs xs :=
  fun x mem c value => by rw [valueless x mem] at value; cases value

theorem cons (plain : x.value? = none) (rest : ValuesIn cs xs) : ValuesIn cs (x :: xs) :=
  List.forall_mem_cons.mpr
    ⟨fun c value => absurd (plain.symm.trans value) (Option.some_ne_none c).symm, rest⟩

theorem append (first : ValuesIn cs xs) (second : ValuesIn cs' ys) :
    ValuesIn (cs ++ cs') (xs ++ ys) :=
  List.forall_mem_append.mpr
    ⟨fun x mem c value => List.mem_append_left _ (first x mem c value),
      fun x mem c value => List.mem_append_right _ (second x mem c value)⟩

theorem mono (inside : ValuesIn cs xs) (sub : cs ⊆ cs') : ValuesIn cs' xs :=
  fun x mem c value => sub (inside x mem c value)

end ValuesIn

mutual

theorem Definition.values_laid : (d : Definition) → ValuesIn d.constants d.laid
  | ⟨as, kind, _⟩ => by
    rw [Definition.constants, Definition.laid]
    exact (values_kindLaid as kind).mono (List.subset_append_right _ _)

theorem values_kindLaid (as : List AnnotationUse) : (kind : DefinitionKind Definition) →
    ValuesIn (kindConstants kind) (kindLaid as kind)
  | .module ⟨_, ds⟩ => by rw [kindConstants, kindLaid]; exact values_allLaid ds
  | .struct t => by rw [kindLaid]; exact .of_valueless (TypeSpec.valueless_laid _) _
  | .union t => by rw [kindLaid]; exact .of_valueless (TypeSpec.valueless_laid _) _
  | .enum t => by rw [kindLaid]; exact .cons rfl (.of_valueless valueless_nil _)
  | .bitset t => by rw [kindLaid]; exact .cons rfl (.of_valueless valueless_nil _)
  | .bitmask t => by rw [kindLaid]; exact .cons rfl (.of_valueless valueless_nil _)
  | .typedef d => by
    rw [kindLaid]
    refine .of_valueless (valueless_append.mpr ⟨d.type.valueless_laid, fun x mem => ?_⟩) _
    obtain ⟨declarator, -, rfl⟩ := List.mem_map.mp mem
    rfl
  | .const d => by
    rw [kindConstants, kindLaid]
    intro x mem c value
    rw [List.mem_singleton.mp mem] at value
    exact List.mem_append_right _ (ConstExpr.mem_constants value)
  | .exception d => by
    rw [kindLaid]
    exact .cons rfl (.of_valueless (valueless_memberLaid d.members) _)
  | .native _ => by rw [kindLaid]; exact .cons rfl (.of_valueless valueless_nil _)
  | .interface ⟨_, _, _, body⟩ => by
    rw [kindConstants, kindLaid]
    exact .cons rfl (values_exportLaid body)
  | .value ⟨_, _, _, _, _, body⟩ => by
    rw [kindConstants, kindLaid]
    exact .cons rfl (values_exportLaid body)
  | .event ⟨_, _, _, _, _, body⟩ => by
    rw [kindConstants, kindLaid]
    exact .cons rfl (values_exportLaid body)
  | .valueBox _ => by rw [kindLaid]; exact .cons rfl (.of_valueless valueless_nil _)
  | .component ⟨_, _, _, body⟩ => by
    rw [kindConstants, kindLaid]
    exact .cons rfl (values_exportLaid body)
  | .home ⟨_, _, _, _, _, body⟩ => by
    rw [kindConstants, kindLaid]
    exact .cons rfl (values_exportLaid body)
  | .forward _ => by rw [kindLaid]; exact .of_valueless valueless_nil _
  | .typeId _ => by rw [kindLaid]; exact .of_valueless valueless_nil _
  | .typePrefix _ => by rw [kindLaid]; exact .of_valueless valueless_nil _
  | .annotationDecl _ => by rw [kindLaid]; exact .of_valueless valueless_nil _

theorem values_allLaid : (ds : List Definition) → ValuesIn (allConstants ds) (allLaid ds)
  | [] => by rw [allLaid]; exact .of_valueless valueless_nil _
  | d :: ds => by
    rw [allConstants, allLaid]
    exact d.values_laid.append (values_allLaid ds)

theorem values_exportLaid : (es : List (Export Definition)) →
    ValuesIn (exportConstants es) (exportLaid es)
  | [] => by rw [exportLaid]; exact .of_valueless valueless_nil _
  | .definition d :: rest => by
    rw [exportConstants, exportLaid]
    exact d.values_laid.append (values_exportLaid rest)
  | .stateMember _ :: rest => by
    rw [exportConstants, exportLaid]
    exact (values_exportLaid rest).mono (List.subset_append_right _ _)
  | .attribute _ :: rest => by
    rw [exportConstants, exportLaid]
    exact (values_exportLaid rest).mono (List.subset_append_right _ _)
  | .operation _ :: rest => by
    rw [exportConstants, exportLaid]
    exact (values_exportLaid rest).mono (List.subset_append_right _ _)
  | .initializer _ :: rest => by
    rw [exportConstants, exportLaid]
    exact (values_exportLaid rest).mono (List.subset_append_right _ _)
  | .port _ :: rest => by
    rw [exportConstants, exportLaid]
    exact values_exportLaid rest

end

/-- A constant of the model is a value of the tree. -/
theorem mem_constants_of_entry {s : Specification} {t : SymbolTable} {e : Entry}
    (mem : e ∈ (buildModel s t).entries) {c : Constant} (kind : e.kind = .const c) :
    c ∈ s.constants := by
  rcases describes_of_mem mem with ⟨x, inside, entry⟩ | ⟨-, same⟩
  · refine values_allLaid s.definitions x inside c ?_
    have describes := entry.describes
    rw [kind] at describes
    cases x with
    | const d =>
      obtain ⟨value, holds, eq⟩ := describes
      cases eq
      exact holds
    | bitset _ => obtain ⟨_, eq⟩ := describes; cases eq
    | closed _ _ => obtain ⟨_, eq⟩ := describes; cases eq
    | _ => cases describes
  · rw [kind] at same
    cases same

/-! The whole of binding. -/

section

variable {N M : SymbolId → Nat → String → Prop}
  (more : ∀ e ordinal name, N e ordinal name → M e ordinal name)
include more

theorem Constant.WellTyped.imp {c : Constant} (typed : c.WellTyped N) : c.WellTyped M :=
  ⟨typed.hasType,
    fun e ordinal name eq => more e ordinal name (typed.enumerator e ordinal name eq)⟩

theorem AllTyped.imp {cs : List Constant} (typed : AllTyped N cs) : AllTyped M cs :=
  fun c mem => (typed c mem).imp more

theorem SymbolTable.Typed.imp {t : SymbolTable} (typed : t.Typed N) : t.Typed M :=
  fun id c slot => (typed id c slot).imp more

theorem Binding.Sound.imp {b : Binding} (sound : Binding.Sound N b) : Binding.Sound M b :=
  ⟨sound.typed.imp more, sound.reported⟩

end

namespace Specification

variable (s : Specification)

/-- The table that the walk over a unit starts with. -/
def startTable : SymbolTable :=
  Binding.allAliases SymbolTable.rootId s.definitions (buildScopes s).table

/-- The unit bound over the table of its symbols, as an analysis has it. -/
def bound : Bound := bindUnit s (buildScopes s).table

/-- The constants of a unit are well typed throughout, and none fails before something is
reported. -/
structure ConstantsTyped : Prop where
  /-- Nothing has a value before the walk. -/
  read : s.constants = []
  /-- At each place among the definitions: the constants in the table, and the values in what was
  bound up to there. -/
  places : ∀ (c : Site) ds, s.definitions = c.fill ds →
    ∃ e, Binding.Passes SymbolTable.rootId c ⟨s.startTable, []⟩ e ∧
      Binding.Sound (s.Enumerates e.state.table) e.state ∧
      AllTyped (s.Enumerates e.state.table) (allConstants (e.front.fill []))
  /-- Wherever an expression is evaluated, at one of these places: the constants in the table, with
  what was reported up to there, and the value of the expression. -/
  evaluations : ∀ q ∈ Binding.allEvaluations SymbolTable.rootId s.definitions s.startTable,
    ∃ (c : Site) (ds : List Definition) (e : Binding.Passage), s.definitions = c.fill ds ∧
      Binding.Passes SymbolTable.rootId c ⟨s.startTable, []⟩ e ∧
      Binding.Sound (s.Enumerates q.table) ⟨q.table, e.state.errors⟩ ∧
      ∀ v, evaluate q.table q.scope q.type q.expr = .ok v → v.WellTyped (s.Enumerates q.table)
  finished : Binding.Sound (s.Enumerates s.bound.table) ⟨s.bound.table, s.bound.errors⟩
  tree : AllTyped (s.Enumerates s.bound.table) s.bound.specification.constants
  model : ∀ e ∈ (buildModel s.bound.specification s.bound.table).entries, ∀ c,
    e.kind = .const c → c.WellTyped (s.Enumerates s.bound.table)

variable {s}

theorem sound_startTable (apart : Apart s.declarations) :
    Binding.Sound (s.Enumerates (buildScopes s).table) ⟨s.startTable, []⟩ := by
  have same (id : SymbolId) : (s.startTable.symbol id).constant =
      ((buildScopes s).table.symbol id).constant :=
    (Binding.settling_allAliases _ SymbolTable.rootId s.definitions).constants id
      fun _ none => by cases none
  refine ⟨fun id c slot => ?_, fun id failed => ?_⟩
  · obtain ⟨e, ordinal, name, rfl, enumerates⟩ :=
      enumerators_buildScopes apart ((same id).symm.trans slot)
    refine ⟨rfl, fun e ordinal name eq => ?_⟩
    cases eq
    exact enumerates
  · exact absurd ((same id).symm.trans failed) ((entered_buildScopes s apart).unfailed id)

theorem constantsTyped (formed : s.Formed) (apart : Apart s.declarations) : s.ConstantsTyped := by
  let t := (buildScopes s).table
  have start : Binding.Sound (s.Enumerates t) ⟨s.startTable, []⟩ := sound_startTable apart
  have aliased : SameFrame t s.startTable :=
    (Binding.settling_allAliases t SymbolTable.rootId s.definitions).frame
  have unread := constants_of_formed formed
  have values : AllTyped (s.Enumerates t) (allConstants s.definitions) := by
    rw [← Specification.constants, unread]
    exact allTyped_nil
  -- the enums of the unit have one symbol each, whatever is settled
  have moved {u : SymbolTable} (same : SameFrame t u) (e : SymbolId) (ordinal : Nat)
      (name : String) : s.Enumerates t e ordinal name → s.Enumerates u e ordinal name :=
    fun enumerates => enumerates.congr same
  have traces := Binding.traces_definitions SymbolTable.rootId s.definitions
  obtain ⟨finished, tree⟩ := Binding.keeps_definitions SymbolTable.rootId s.definitions values
    ⟨s.startTable, []⟩ start
  have last := moved (settling_bindUnit s t).frame
  have typed : AllTyped (s.Enumerates s.bound.table) s.bound.specification.constants :=
    AllTyped.imp last tree
  -- what is in front of a place is bound to the same as in the whole
  have passed (c : Site) (ds : List Definition) (split : s.definitions = c.fill ds) :
      ∃ e, Binding.Passes SymbolTable.rootId c ⟨s.startTable, []⟩ e ∧
        Binding.Sound (s.Enumerates t) e.state ∧
        AllTyped (s.Enumerates t) (allConstants (e.front.fill [])) := by
    obtain ⟨e, passes⟩ := Binding.exists_passes c SymbolTable.rootId ⟨s.startTable, []⟩
    exact ⟨e, passes, passes.sound start fun k mem =>
      values k (split ▸ (constants_front c ds).subset mem)⟩
  refine ⟨unread, fun c ds split => ?_, fun q mem => ?_, finished.imp last, typed,
    fun e mem c kind => typed c (mem_constants_of_entry mem kind)⟩
  · obtain ⟨e, passes, sound, typed⟩ := passed c ds split
    have here := moved (aliased.trans passes.frame)
    exact ⟨e, passes, sound.imp here, AllTyped.imp here typed⟩
  · obtain ⟨c, ds, split, same⟩ := Binding.isAt_all SymbolTable.rootId s.definitions
      ⟨s.startTable, []⟩ q mem
    obtain ⟨e, passes, sound, -⟩ := passed c ds split
    have current := sound.congr (passes.state_eq ▸ same)
    have here := moved (aliased.trans (traces.tables _ q mem).frame)
    exact ⟨c, ds, e, split, passes, current.imp here, fun v value =>
      (wellTyped_of_evaluate current.typed value).imp here⟩

end Specification

/-- Whatever a text is, constants are well typed throughout the analysis of its unit: in the symbol
table, in the tree and in the model; and a constant fails only where something is reported. -/
theorem wellTyped_parseText (limit : Nat) (text : String) :
    (parseText limit text).specification.ConstantsTyped :=
  Specification.constantsTyped
    (Grammar.found_parseTokens limit (tokenize text).tokens (fine_tokenize text)).good
    (wellPlaced_parseText limit text).apart

end Idl
