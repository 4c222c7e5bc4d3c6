import Idl.Proofs.Binding.Trace
import Idl.Proofs.Const.Stored
import Idl.Proofs.Syntax.Constants

/-!
Binding keeps constants well typed: the values it puts into a tree and those it settles in the table
are of the form their types call for, and it reports something before any constant has failed.
Main statement: `keeps_definitions`.
-/

set_option autoImplicit false

namespace Idl

/-- The value is of the type. An enumerator is one that `N` knows by its ordinal and name. -/
structure Constant.WellTyped (N : SymbolId → Nat → String → Prop) (c : Constant) : Prop where
  hasType : c.value.HasType c.type
  enumerator : ∀ e ordinal name, c.value = .enumerator e ordinal name → N e ordinal name

/-- All of the constants are well typed. -/
def AllTyped (N : SymbolId → Nat → String → Prop) (cs : List Constant) : Prop :=
  ∀ c ∈ cs, c.WellTyped N

/-- The values of the table are well typed. -/
def SymbolTable.Typed (N : SymbolId → Nat → String → Prop) (t : SymbolTable) : Prop :=
  ∀ id c, (t.symbol id).constant = .value c → c.WellTyped N

/-- Each constant is as settled in one as in the other. -/
def SameSlots (t u : SymbolTable) : Prop :=
  ∀ id, (t.symbol id).constant = (u.symbol id).constant

section

variable {N : SymbolId → Nat → String → Prop}

theorem allTyped_nil : AllTyped N [] := List.forall_mem_nil _

theorem allTyped_append {cs cs' : List Constant} :
    AllTyped N (cs ++ cs') ↔ AllTyped N cs ∧ AllTyped N cs' := List.forall_mem_append

theorem allTyped_flatMap {α : Type} {f : α → List Constant} {xs : List α} :
    AllTyped N (xs.flatMap f) ↔ ∀ x ∈ xs, AllTyped N (f x) := List.forall_mem_flatMap

theorem allTyped_toList {α : Type} {f : α → List Constant} {x : Option α} :
    AllTyped N (x.toList.flatMap f) ↔ ∀ y ∈ x, AllTyped N (f y) := by
  simp [allTyped_flatMap]

/-- Evaluation over a table of well typed values gives another one. -/
theorem wellTyped_of_evaluate {t : SymbolTable} (typed : t.Typed N) {scope : SymbolId}
    {type : ConstType} {e : ConstExpr} {c : Constant} (value : evaluate t scope type e = .ok c) :
    c.WellTyped N where
  hasType := by
    obtain ⟨same, holds⟩ := hasType_of_evaluate value
    rwa [same]
  enumerator enum ordinal name eq := by
    obtain ⟨id, source, slot, same⟩ := stored_of_evaluate value eq
    exact (typed id source slot).enumerator enum ordinal name same

theorem SymbolTable.Typed.congr {t u : SymbolTable} (typed : t.Typed N)
    (same : SameSlots u t) : u.Typed N :=
  fun id c slot => typed id c ((same id).symm.trans slot)

end

namespace Binding

variable {N : SymbolId → Nat → String → Prop} {α β : Type}

/-- The values of the table are well typed, and if a constant has failed something was reported. -/
structure Sound (N : SymbolId → Nat → String → Prop) (b : Binding) : Prop where
  typed : b.table.Typed N
  reported : ∀ id, (b.table.symbol id).constant = .failed → b.errors ≠ []

namespace Sound

variable {b : Binding}

/-- More errors. -/
theorem mono (sound : Sound N b) (es : List BindingError) : Sound N ⟨b.table, b.errors ++ es⟩ where
  typed := sound.typed
  reported id failed none := sound.reported id failed (List.append_eq_nil_iff.mp none).1

/-- A table with the same constants. -/
theorem congr (sound : Sound N b) {t : SymbolTable} (same : SameSlots t b.table) :
    Sound N ⟨t, b.errors⟩ where
  typed := sound.typed.congr same
  reported id failed := sound.reported id ((same id).symm.trans failed)

end Sound

/-- A step stays with sound states, and `Q` holds of what it returns. -/
def Keeps (N : SymbolId → Nat → String → Prop) (p : BindM α) (Q : α → Prop) : Prop :=
  ∀ b, Sound N b → Sound N (p.run b).2 ∧ Q (p.run b).1

namespace Keeps

variable {p : BindM α} {k : α → BindM β} {Q : α → Prop} {R : β → Prop}

theorem pure {a : α} (holds : Q a) : Keeps N (Pure.pure a) Q := fun _ sound => ⟨sound, holds⟩

theorem bind (first : Keeps N p Q) (second : ∀ a, Q a → Keeps N (k a) R) :
    Keeps N (p >>= k) R := by
  intro b sound
  obtain ⟨sound, holds⟩ := first b sound
  exact second _ holds _ sound

theorem look (f : SymbolTable → α) : Keeps N (table? f) fun _ => True :=
  fun _ sound => ⟨sound, trivial⟩

theorem report (fault : BindingFault) (span : Span) :
    Keeps N (Binding.report fault span) fun _ => True :=
  fun _ sound => ⟨sound.mono [⟨fault, span⟩], trivial⟩

/-- A step that evaluates nothing and leaves the table as it is. -/
theorem silent {qs : SymbolTable → List Evaluation} (evaluates : Evaluates p qs) :
    Keeps N p fun _ => True := by
  intro b sound
  rw [evaluates.run]
  exact ⟨sound.mono _, trivial⟩

/-- A change of the table that leaves constants alone. -/
theorem changeTable {f : SymbolTable → SymbolTable}
    (same : ∀ t, SameSlots (f t) t) :
    Keeps N (modify fun b : Binding => { b with table := f b.table }) fun _ => True :=
  fun b sound => ⟨sound.congr (same b.table), trivial⟩

theorem mapM {f : α → BindM β} {g : β → List Constant} {xs : List α}
    (each : ∀ x ∈ xs, Keeps N (f x) fun y => AllTyped N (g y)) :
    Keeps N (xs.mapM f) fun ys => AllTyped N (ys.flatMap g) := by
  induction xs with
  | nil => exact pure allTyped_nil
  | cons x xs ih =>
    rw [List.forall_mem_cons] at each
    rw [List.mapM_cons]
    exact each.1.bind fun _ first => (ih each.2).bind fun _ rest =>
      pure (allTyped_append.mpr ⟨first, rest⟩)

theorem mapOption {f : α → BindM β} {g : β → List Constant} {x : Option α}
    (each : ∀ y ∈ x, Keeps N (f y) fun z => AllTyped N (g z)) :
    Keeps N (x.mapM f) fun z => AllTyped N (z.toList.flatMap g) := by
  cases x with
  | none => exact pure allTyped_nil
  | some x =>
    refine (each x rfl).bind (R := fun z : Option β => AllTyped N (z.toList.flatMap g))
      fun y holds => pure (a := some y) (allTyped_toList.mpr fun _ mem => ?_)
    cases mem
    exact holds

end Keeps

/-! Expressions. -/

theorem allTyped_withValue {e : ConstExpr} (typed : AllTyped N e.constants) {c : Constant}
    (new : c.WellTyped N) : AllTyped N (e.withValue (some c)).constants := by
  intro other mem
  rcases ConstExpr.mem_constants_withValue mem with rfl | mem
  · exact new
  · exact typed other mem

theorem allTyped_exprOutcome (scope : SymbolId) (type : ConstType) {t : SymbolTable}
    (slots : t.Typed N) {e : ConstExpr} (typed : AllTyped N e.constants) :
    AllTyped N (exprOutcome scope type t e).1.constants := by
  rw [exprOutcome]
  cases value : evaluate t scope type e with
  | ok c => exact allTyped_withValue typed (wellTyped_of_evaluate slots value)
  | error error => exact typed

section

variable (scope : SymbolId)

theorem keeps_evaluated (type : ConstType) {e : ConstExpr} (typed : AllTyped N e.constants) :
    Keeps N (evaluated scope type e) fun r => AllTyped N r.1.constants := by
  intro b sound
  rw [run_evaluated]
  exact ⟨sound.mono _, allTyped_exprOutcome scope type sound.typed typed⟩

theorem keeps_expr (type : ConstType) {e : ConstExpr} (typed : AllTyped N e.constants) :
    Keeps N (expr scope type e) fun e => AllTyped N e.constants :=
  (keeps_evaluated scope type typed).bind fun _ typed => .pure typed

theorem keeps_size? {e : Option ConstExpr}
    (typed : AllTyped N (e.toList.flatMap ConstExpr.constants)) :
    Keeps N (size? scope e) fun e => AllTyped N (e.toList.flatMap ConstExpr.constants) :=
  .mapOption fun x mem => keeps_expr scope sizeType (allTyped_toList.mp typed x mem)

/-! Annotations and declarators. -/

theorem keeps_valueParam (type : ConstType) {ps : List (Ident × ConstExpr)}
    (typed : AllTyped N (ps.flatMap (·.2.constants))) :
    Keeps N (valueParam scope type ps) fun ps => AllTyped N (ps.flatMap (·.2.constants)) := by
  induction ps with
  | nil => exact .pure allTyped_nil
  | cons p rest ih =>
    obtain ⟨name, e⟩ := p
    rw [List.flatMap_cons, allTyped_append] at typed
    rw [valueParam]
    split
    · exact (keeps_expr scope type typed.1).bind fun _ first =>
        .pure (allTyped_append.mpr ⟨first, typed.2⟩)
    · exact (ih typed.2).bind fun _ rest => .pure (allTyped_append.mpr ⟨typed.1, rest⟩)

theorem keeps_annotationUse {a : AnnotationUse} (typed : AllTyped N a.constants) :
    Keeps N (annotationUse scope a) fun a => AllTyped N a.constants := by
  obtain ⟨name, args, span⟩ := a
  rw [annotationUse]
  split
  · exact .pure typed
  · cases args with
    | none => exact .pure typed
    | single e => exact (keeps_expr scope _ typed).bind fun _ typed => .pure typed
    | named params => exact (keeps_valueParam scope _ typed).bind fun _ typed => .pure typed

theorem keeps_annotations {as : List AnnotationUse}
    (typed : AllTyped N (as.flatMap AnnotationUse.constants)) :
    Keeps N (annotations scope as) fun as => AllTyped N (as.flatMap AnnotationUse.constants) :=
  .mapM fun a mem => keeps_annotationUse scope (allTyped_flatMap.mp typed a mem)

theorem keeps_declarator {d : Declarator} (typed : AllTyped N d.constants) :
    Keeps N (declarator scope d) fun d => AllTyped N d.constants :=
  (Keeps.mapM fun e mem => keeps_expr scope sizeType (allTyped_flatMap.mp typed e mem)).bind
    fun _ dims => .pure dims

/-! Types. -/

theorem keeps_scopeOf (name : Ident) : Keeps N (scopeOf name scope) fun _ => True :=
  (Keeps.look _).bind fun _ _ => .pure trivial

theorem keeps_enumerator {v : Enumerator} (typed : AllTyped N v.constants) :
    Keeps N (enumerator scope v) fun v => AllTyped N v.constants :=
  (keeps_annotations scope typed).bind fun _ as => .pure as

theorem keeps_enumType {t : EnumType} (typed : AllTyped N t.constants) :
    Keeps N (enumType scope t) fun t => AllTyped N t.constants :=
  (Keeps.mapM fun v mem => keeps_enumerator scope (allTyped_flatMap.mp typed v mem)).bind
    fun _ all => .pure all

theorem keeps_bitmaskType {t : BitmaskType} (typed : AllTyped N t.constants) :
    Keeps N (bitmaskType scope t) fun t => AllTyped N t.constants :=
  (Keeps.mapM fun v mem => keeps_enumerator scope (allTyped_flatMap.mp typed v mem)).bind
    fun _ all => .pure all

theorem keeps_bitfield {f : Bitfield} (typed : AllTyped N f.constants) :
    Keeps N (bitfield scope f) fun f => AllTyped N f.constants := by
  obtain ⟨as, width⟩ := allTyped_append.mp typed
  exact (keeps_annotations scope as).bind fun _ as => (keeps_expr scope sizeType width).bind
    fun _ width => .pure (allTyped_append.mpr ⟨as, width⟩)

theorem keeps_bitsetType {t : BitsetType} (typed : AllTyped N t.constants) :
    Keeps N (bitsetType scope t) fun t => AllTyped N t.constants :=
  (Keeps.silent (evaluates_base? scope t.name .bitset t.base)).bind fun _ _ =>
    (Keeps.mapM fun f mem => keeps_bitfield scope (allTyped_flatMap.mp typed f mem)).bind
      fun _ fields => .pure fields

theorem keeps_caseLabel (type : Option ConstType) {label : CaseLabel}
    (typed : AllTyped N label.constants) :
    Keeps N (caseLabel scope type label) fun l => AllTyped N l.constants := by
  cases type with
  | none => exact .pure typed
  | some type =>
    cases label with
    | value e => exact (keeps_expr scope type typed).bind fun _ typed => .pure typed
    | default span => exact .pure typed

end

mutual

theorem keeps_typeSpec (scope : SymbolId) : (τ : TypeSpec) → AllTyped N τ.constants →
    Keeps N (typeSpec scope τ) fun τ => AllTyped N τ.constants
  | .primitive k, typed => by
    rw [typeSpec]
    exact .pure typed
  | .named type, _ => by
    rw [typeSpec]
    refine (Keeps.silent (evaluates_namedType scope type)).bind fun _ _ => .pure ?_
    rw [TypeSpec.constants]
    exact allTyped_nil
  | .sequence element bound, typed => by
    rw [TypeSpec.constants, allTyped_append] at typed
    rw [typeSpec]
    refine (keeps_typeSpec scope element typed.1).bind fun _ element =>
      (keeps_size? scope typed.2).bind fun _ bound => .pure ?_
    rw [TypeSpec.constants, allTyped_append]
    exact ⟨element, bound⟩
  | .set element bound, typed => by
    rw [TypeSpec.constants, allTyped_append] at typed
    rw [typeSpec]
    refine (keeps_typeSpec scope element typed.1).bind fun _ element =>
      (keeps_size? scope typed.2).bind fun _ bound => .pure ?_
    rw [TypeSpec.constants, allTyped_append]
    exact ⟨element, bound⟩
  | .map key value bound, typed => by
    rw [TypeSpec.constants, allTyped_append, allTyped_append] at typed
    rw [typeSpec]
    refine (keeps_typeSpec scope key typed.1).bind fun _ key =>
      (keeps_typeSpec scope value typed.2.1).bind fun _ value =>
      (keeps_size? scope typed.2.2).bind fun _ bound => .pure ?_
    rw [TypeSpec.constants, allTyped_append, allTyped_append]
    exact ⟨key, value, bound⟩
  | .string bound, typed => by
    rw [TypeSpec.constants] at typed
    rw [typeSpec]
    exact (keeps_size? scope typed).bind fun _ bound => .pure (by rwa [TypeSpec.constants])
  | .wstring bound, typed => by
    rw [TypeSpec.constants] at typed
    rw [typeSpec]
    exact (keeps_size? scope typed).bind fun _ bound => .pure (by rwa [TypeSpec.constants])
  | .fixed none, typed => by
    rw [typeSpec]
    exact .pure typed
  | .fixed (some (digits, scale)), typed => by
    rw [TypeSpec.constants, allTyped_append] at typed
    rw [typeSpec]
    refine (keeps_expr scope sizeType typed.1).bind fun _ digits =>
      (keeps_expr scope sizeType typed.2).bind fun _ scale => .pure ?_
    rw [TypeSpec.constants, allTyped_append]
    exact ⟨digits, scale⟩
  | .struct t, typed => by
    rw [typeSpec]
    exact (keeps_structType scope t typed).bind fun _ typed => .pure typed
  | .union t, typed => by
    rw [typeSpec]
    exact (keeps_unionType scope t typed).bind fun _ typed => .pure typed
  | .enum t, typed => by
    rw [TypeSpec.constants] at typed
    rw [typeSpec]
    exact (keeps_enumType scope typed).bind fun _ typed => .pure (by rwa [TypeSpec.constants])
  | .bitset t, typed => by
    rw [TypeSpec.constants] at typed
    rw [typeSpec]
    exact (keeps_bitsetType scope typed).bind fun _ typed => .pure (by rwa [TypeSpec.constants])
  | .bitmask t, typed => by
    rw [TypeSpec.constants] at typed
    rw [typeSpec]
    exact (keeps_bitmaskType scope typed).bind fun _ typed => .pure (by rwa [TypeSpec.constants])

theorem keeps_structType (scope : SymbolId) : (t : StructType TypeSpec) →
    AllTyped N (TypeSpec.struct t).constants →
    Keeps N (structType scope t) fun t => AllTyped N (TypeSpec.struct t).constants
  | ⟨name, b, fields, span⟩, typed => by
    rw [TypeSpec.constants] at typed
    rw [structType]
    refine (Keeps.silent (evaluates_base? scope name .struct b)).bind fun _ _ =>
      (keeps_scopeOf scope name).bind fun id _ =>
      (keeps_members id fields typed).bind fun _ fields => .pure ?_
    rwa [TypeSpec.constants]

theorem keeps_members (scope : SymbolId) : (ms : List (Member TypeSpec)) →
    AllTyped N (memberConstants ms) →
    Keeps N (members scope ms) fun ms => AllTyped N (memberConstants ms)
  | [], typed => by
    rw [members]
    exact .pure typed
  | ⟨as, type, ds, span⟩ :: rest, typed => by
    rw [memberConstants, allTyped_append, allTyped_append, allTyped_append] at typed
    obtain ⟨as', type', ds', rest'⟩ := typed
    rw [members]
    refine (keeps_annotations scope as').bind fun _ as =>
      (keeps_typeSpec scope type type').bind fun _ τ =>
      (Keeps.mapM fun d mem => keeps_declarator scope (allTyped_flatMap.mp ds' d mem)).bind
      fun _ ds => (keeps_members scope rest rest').bind fun _ rest => .pure ?_
    rw [memberConstants, allTyped_append, allTyped_append, allTyped_append]
    exact ⟨as, τ, ds, rest⟩

theorem keeps_unionType (scope : SymbolId) : (t : UnionType TypeSpec) →
    AllTyped N (TypeSpec.union t).constants →
    Keeps N (unionType scope t) fun t => AllTyped N (TypeSpec.union t).constants
  | ⟨name, ⟨as, type, switchSpan⟩, cases, span⟩, typed => by
    rw [TypeSpec.constants, allTyped_append, allTyped_append] at typed
    rw [unionType]
    refine (keeps_scopeOf scope name).bind fun id _ =>
      (keeps_annotations id typed.1).bind fun _ as =>
      (keeps_typeSpec id type typed.2.1).bind fun _ τ => (Keeps.look _).bind fun labels _ =>
      (keeps_unionCases id labels cases typed.2.2).bind fun _ cases => .pure ?_
    rw [TypeSpec.constants, allTyped_append, allTyped_append]
    exact ⟨as, τ, cases⟩

theorem keeps_unionCases (scope : SymbolId) (labelType : Option ConstType) :
    (cs : List (UnionCase TypeSpec)) → AllTyped N (caseConstants cs) →
    Keeps N (unionCases scope labelType cs) fun cs => AllTyped N (caseConstants cs)
  | [], typed => by
    rw [unionCases]
    exact .pure typed
  | ⟨labels, as, type, d, span⟩ :: rest, typed => by
    simp only [caseConstants, allTyped_append] at typed
    obtain ⟨labels', as', type', d', rest'⟩ := typed
    rw [unionCases]
    refine (Keeps.mapM fun l mem => keeps_caseLabel scope labelType
      (allTyped_flatMap.mp labels' l mem)).bind fun _ labels =>
      (keeps_annotations scope as').bind fun _ as =>
      (keeps_typeSpec scope type type').bind fun _ τ =>
      (keeps_declarator scope d').bind fun _ d =>
      (keeps_unionCases scope labelType rest rest').bind fun _ rest => .pure ?_
    simp only [caseConstants, allTyped_append]
    exact ⟨labels, as, τ, d, rest⟩

end

/-! Definitions. -/

section

variable (scope : SymbolId)

theorem keeps_typedefDeclarator (type : TypeSpec) {d : Declarator}
    (typed : AllTyped N d.constants) :
    Keeps N (typedefDeclarator scope type d) fun d => AllTyped N d.constants := by
  refine (keeps_declarator scope typed).bind fun d typed => ?_
  refine (Keeps.changeTable (f := (aliasTo type · d)) fun t id => ?_).bind fun _ _ => .pure typed
  exact (Settling.aliasTo type t d []).constants id fun _ mem => by cases mem

theorem keeps_typedef {d : Typedef} (typed : AllTyped N d.constants) :
    Keeps N (typedef scope d) fun d => AllTyped N d.constants := by
  obtain ⟨type, ds⟩ := allTyped_append.mp typed
  exact (keeps_typeSpec scope d.type type).bind fun type τ =>
    (Keeps.mapM fun x mem =>
      keeps_typedefDeclarator scope type (allTyped_flatMap.mp ds x mem)).bind fun _ ds =>
    .pure (allTyped_append.mpr ⟨τ, ds⟩)

/-- A constant that is settled has a well typed value, or something is reported by then. -/
theorem Sound.settled {b : Binding} (sound : Sound N b) (name : Ident) {slot : ConstSlot}
    {es : List BindingError} (typed : ∀ c, slot = .value c → c.WellTyped N)
    (reported : slot = .failed → b.errors ++ es ≠ []) :
    Sound N ⟨settled b.table name slot, b.errors ++ es⟩ := by
  rw [Binding.settled]
  split
  · next id _ =>
    have slots (i : SymbolId) : ((b.table.setConstant id slot).symbol i).constant = slot ∨
        ((b.table.setConstant id slot).symbol i).constant = (b.table.symbol i).constant := by
      rw [SymbolTable.setConstant, SymbolTable.symbol_modify]
      split
      · exact .inl rfl
      · exact .inr rfl
    refine ⟨fun i c value => ?_, fun i failed => ?_⟩
    · rcases slots i with new | old
      · exact typed c (new.symm.trans value)
      · exact sound.typed i c (old.symm.trans value)
    · rcases slots i with new | old
      · exact reported (new.symm.trans failed)
      · exact (sound.mono es).reported i (old.symm.trans failed)
  · exact sound.mono es

theorem keeps_settleConst (type : TypeSpec) (name : Ident) {e : ConstExpr}
    (typed : AllTyped N e.constants) :
    Keeps N (settleConst scope type name e) fun e => AllTyped N e.constants := by
  intro b sound
  rw [run_settleConst, constOutcome]
  cases b.table.constType? type with
  | none =>
    exact ⟨sound.settled name (fun _ eq => by cases eq) fun _ => by simp, typed⟩
  | some constType =>
    dsimp only
    cases value : evaluate b.table scope constType e with
    | ok c =>
      have new := wellTyped_of_evaluate sound.typed value
      refine ⟨sound.settled name (fun _ eq => ?_) (fun eq => by cases eq),
        allTyped_withValue typed new⟩
      cases eq
      exact new
    | error error =>
      refine ⟨sound.settled name (fun _ eq => by cases eq) fun _ none => ?_, typed⟩
      obtain ⟨before, now⟩ := List.append_eq_nil_iff.mp none
      -- what is not reported follows from a constant that has failed before
      cases cascade : error.isCascade with
      | true =>
        obtain ⟨id, failed⟩ := failed_of_isCascade value cascade
        exact sound.reported id failed before
      | false =>
        simp [faultErrors, cascade] at now

theorem keeps_constDecl {d : ConstDecl} (typed : AllTyped N d.constants) :
    Keeps N (constDecl scope d) fun d => AllTyped N d.constants := by
  obtain ⟨type, name, value⟩ := d
  obtain ⟨type', value'⟩ := allTyped_append.mp typed
  rw [constDecl_eq_settleConst]
  exact (keeps_typeSpec scope type type').bind fun type τ =>
    (keeps_settleConst scope type name value').bind fun _ value =>
      .pure (allTyped_append.mpr ⟨τ, value⟩)

theorem keeps_stateMember {m : StateMember} (typed : AllTyped N (memberConstants [m.member])) :
    Keeps N (stateMember scope m) fun m => AllTyped N (memberConstants [m.member]) := by
  refine (keeps_members scope [m.member] typed).bind fun ms typed' => ?_
  cases ms with
  | nil => exact .pure typed
  | cons member rest =>
    obtain ⟨as, type, ds, span⟩ := member
    simp only [memberConstants, allTyped_append] at typed'
    refine .pure ?_
    simp only [memberConstants, allTyped_append]
    exact ⟨typed'.1, typed'.2.1, typed'.2.2.1, allTyped_nil⟩

theorem keeps_body (name : Ident) {body : List (Export Definition)}
    (inner : ∀ id, Keeps N (exports id body) fun es => AllTyped N (exportConstants es))
    {close : List (Export Definition) → DefinitionKind Definition}
    (constants : ∀ es, kindConstants (close es) = exportConstants es) :
    Keeps N (do
      let id ← scopeOf name scope
      return close (← exports id body)) fun kind => AllTyped N (kindConstants kind) :=
  (keeps_scopeOf scope name).bind fun id _ => (inner id).bind fun es typed =>
    .pure (by rwa [constants])

end

mutual

theorem keeps_definition (scope : SymbolId) : (d : Definition) → AllTyped N d.constants →
    Keeps N (definition scope d) fun d => AllTyped N d.constants
  | ⟨as, kind, span⟩, typed => by
    rw [Definition.constants, allTyped_append] at typed
    rw [definition]
    refine (keeps_annotations scope typed.1).bind fun _ as =>
      (keeps_definitionKind scope kind typed.2).bind fun _ kind => .pure ?_
    rw [Definition.constants, allTyped_append]
    exact ⟨as, kind⟩

theorem keeps_definitionKind (scope : SymbolId) : (kind : DefinitionKind Definition) →
    AllTyped N (kindConstants kind) →
    Keeps N (definitionKind scope kind) fun kind => AllTyped N (kindConstants kind)
  | .module ⟨name, ds⟩, typed => by
    rw [definitionKind]
    refine (Keeps.look _).bind fun id _ => ?_
    cases id with
    | none => exact .pure typed
    | some id =>
      rw [kindConstants] at typed
      exact (keeps_definitions id ds typed).bind fun _ all => .pure (by rwa [kindConstants])
  | .struct t, typed => by
    rw [kindConstants] at typed
    rw [definitionKind]
    exact (keeps_structType scope t typed).bind fun _ typed => .pure (by rwa [kindConstants])
  | .union t, typed => by
    rw [kindConstants] at typed
    rw [definitionKind]
    exact (keeps_unionType scope t typed).bind fun _ typed => .pure (by rwa [kindConstants])
  | .enum t, typed => by
    rw [kindConstants] at typed
    rw [definitionKind]
    exact (keeps_enumType scope typed).bind fun _ typed => .pure (by rwa [kindConstants])
  | .bitset t, typed => by
    rw [kindConstants] at typed
    rw [definitionKind]
    exact (keeps_bitsetType scope typed).bind fun _ typed => .pure (by rwa [kindConstants])
  | .bitmask t, typed => by
    rw [kindConstants] at typed
    rw [definitionKind]
    exact (keeps_bitmaskType scope typed).bind fun _ typed => .pure (by rwa [kindConstants])
  | .typedef d, typed => by
    rw [kindConstants] at typed
    rw [definitionKind]
    exact (keeps_typedef scope typed).bind fun _ typed => .pure (by rwa [kindConstants])
  | .const d, typed => by
    rw [kindConstants] at typed
    rw [definitionKind]
    exact (keeps_constDecl scope typed).bind fun _ typed => .pure (by rwa [kindConstants])
  | .exception d, typed => by
    rw [kindConstants] at typed
    rw [definitionKind]
    exact (keeps_scopeOf scope d.name).bind fun id _ =>
      (keeps_members id d.members typed).bind fun _ typed => .pure (by rwa [kindConstants])
  | .interface ⟨name, _, _, body⟩, typed => by
    rw [kindConstants] at typed
    rw [definitionKind]
    exact keeps_body scope name (fun id => keeps_exports id body typed) fun _ => by
      rw [kindConstants]
  | .value ⟨name, _, _, _, _, body⟩, typed => by
    rw [kindConstants] at typed
    rw [definitionKind]
    exact keeps_body scope name (fun id => keeps_exports id body typed) fun _ => by
      rw [kindConstants]
  | .event ⟨name, _, _, _, _, body⟩, typed => by
    rw [kindConstants] at typed
    rw [definitionKind]
    exact keeps_body scope name (fun id => keeps_exports id body typed) fun _ => by
      rw [kindConstants]
  | .valueBox d, typed => by
    rw [kindConstants] at typed
    rw [definitionKind]
    exact (keeps_typeSpec scope d.type typed).bind fun _ typed => .pure (by rwa [kindConstants])
  | .component ⟨name, _, _, body⟩, typed => by
    rw [kindConstants] at typed
    rw [definitionKind]
    exact keeps_body scope name (fun id => keeps_exports id body typed) fun _ => by
      rw [kindConstants]
  | .home ⟨name, _, _, _, _, body⟩, typed => by
    rw [kindConstants] at typed
    rw [definitionKind]
    exact keeps_body scope name (fun id => keeps_exports id body typed) fun _ => by
      rw [kindConstants]
  | .native name, typed => by rw [definitionKind]; exact .pure typed
  | .forward d, typed => by rw [definitionKind]; exact .pure typed
  | .typeId d, typed => by rw [definitionKind]; exact .pure typed
  | .typePrefix d, typed => by rw [definitionKind]; exact .pure typed
  | .annotationDecl d, typed => by rw [definitionKind]; exact .pure typed

theorem keeps_definitions (scope : SymbolId) : (ds : List Definition) →
    AllTyped N (allConstants ds) →
    Keeps N (definitions scope ds) fun ds => AllTyped N (allConstants ds)
  | [], typed => by
    rw [definitions]
    exact .pure typed
  | d :: ds, typed => by
    rw [allConstants, allTyped_append] at typed
    rw [definitions]
    refine (keeps_definition scope d typed.1).bind fun _ first =>
      (keeps_definitions scope ds typed.2).bind fun _ rest => .pure ?_
    rw [allConstants, allTyped_append]
    exact ⟨first, rest⟩

theorem keeps_exports (scope : SymbolId) : (es : List (Export Definition)) →
    AllTyped N (exportConstants es) →
    Keeps N (exports scope es) fun es => AllTyped N (exportConstants es)
  | [], typed => by
    rw [exports]
    exact .pure typed
  | .definition d :: rest, typed => by
    rw [exportConstants, allTyped_append] at typed
    rw [exports]
    refine (keeps_definition scope d typed.1).bind fun _ first =>
      (keeps_exports scope rest typed.2).bind fun _ rest => .pure ?_
    rw [exportConstants, allTyped_append]
    exact ⟨first, rest⟩
  | .stateMember m :: rest, typed => by
    rw [exportConstants, allTyped_append] at typed
    rw [exports]
    refine (keeps_stateMember scope typed.1).bind fun _ first =>
      (keeps_exports scope rest typed.2).bind fun _ rest => .pure ?_
    rw [exportConstants, allTyped_append]
    exact ⟨first, rest⟩
  | .attribute a :: rest, typed => by
    rw [exportConstants, allTyped_append] at typed
    rw [exports]
    refine (keeps_exports scope rest typed.2).bind fun _ rest => .pure ?_
    rw [exportConstants, allTyped_append]
    exact ⟨typed.1, rest⟩
  | .operation o :: rest, typed => by
    rw [exportConstants, allTyped_append] at typed
    rw [exports]
    refine (keeps_exports scope rest typed.2).bind fun _ rest => .pure ?_
    rw [exportConstants, allTyped_append]
    exact ⟨typed.1, rest⟩
  | .initializer i :: rest, typed => by
    rw [exportConstants, allTyped_append] at typed
    rw [exports]
    refine (keeps_exports scope rest typed.2).bind fun _ rest => .pure ?_
    rw [exportConstants, allTyped_append]
    exact ⟨typed.1, rest⟩
  | .port _ :: rest, typed => by
    rw [exportConstants] at typed
    rw [exports]
    exact (keeps_exports scope rest typed).bind fun _ rest => .pure (by rwa [exportConstants])

end

end Binding

end Idl
