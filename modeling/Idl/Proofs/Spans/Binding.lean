import Idl.Proofs.Binding.EchoUnit
import Idl.Proofs.Spans.Placed

/-!
Binding keeps to good places: over a tree with good places its errors stand at such, and the bound
tree has the same places. Main statement: `placed_bindUnit`.
-/

set_option autoImplicit false

namespace Idl.Binding

variable {P : Span → Prop} {α β : Type}

/-- The errors so far stand at good places. -/
def Good (P : Span → Prop) (b : Binding) : Prop := ∀ e ∈ b.errors, P e.span

/-- A step keeps errors at good places, and `Q` holds of what it returns. -/
def Points (P : Span → Prop) (p : BindM α) (Q : α → Prop) : Prop :=
  ∀ b, Good P b → Good P (p.run b).2 ∧ Q (p.run b).1

namespace Points

variable {p : BindM α} {k : α → BindM β} {Q : α → Prop} {R : β → Prop}

theorem pure {a : α} (holds : Q a) : Points P (Pure.pure a) Q := fun _ good => ⟨good, holds⟩

theorem bind (first : Points P p Q) (second : ∀ a, Q a → Points P (k a) R) :
    Points P (p >>= k) R := by
  intro b good
  obtain ⟨good, holds⟩ := first b good
  exact second _ holds _ good

theorem weaken {Q' : α → Prop} (points : Points P p Q) (imp : ∀ a, Q a → Q' a) : Points P p Q' :=
  fun b good => ⟨(points b good).1, imp _ (points b good).2⟩

theorem look (f : SymbolTable → α) : Points P (table? f) fun _ => True :=
  fun _ good => ⟨good, trivial⟩

theorem report (fault : BindingFault) {span : Span} (place : P span) :
    Points P (Binding.report fault span) fun _ => True :=
  fun _ good => ⟨List.forall_mem_append.mpr
    ⟨good, fun _ mem => List.mem_singleton.mp mem ▸ place⟩, trivial⟩

/-- A step whose outcome is known for each table. -/
theorem outcome {f : SymbolTable → α × List BindingError}
    (run : ∀ b, p.run b = ((f b.table).1, ⟨b.table, b.errors ++ (f b.table).2⟩))
    (holds : ∀ t, (∀ e ∈ (f t).2, P e.span) ∧ Q (f t).1) : Points P p Q := by
  intro b good
  rw [run]
  exact ⟨List.forall_mem_append.mpr ⟨good, (holds b.table).1⟩, (holds b.table).2⟩

/-- A change of the table alone. -/
theorem changeTable (f : SymbolTable → SymbolTable) :
    Points P (modify fun b : Binding => { b with table := f b.table }) fun _ => True :=
  fun _ good => ⟨good, trivial⟩

theorem mapM {f : α → BindM β} {xs : List α} (each : ∀ x ∈ xs, Points P (f x) R) :
    Points P (xs.mapM f) fun ys => ∀ y ∈ ys, R y := by
  induction xs with
  | nil => exact pure (by simp)
  | cons x xs ih =>
    rw [List.forall_mem_cons] at each
    rw [List.mapM_cons]
    exact each.1.bind fun _ first => (ih each.2).bind fun _ rest =>
      pure (List.forall_mem_cons.mpr ⟨first, rest⟩)

theorem mapOption {f : α → BindM β} {x : Option α} (each : ∀ y ∈ x, Points P (f y) R) :
    Points P (x.mapM f) fun z => ∀ y ∈ z, R y := by
  cases x with
  | none => exact pure nofun
  | some x => exact (each x rfl).bind fun _ holds => pure fun _ mem => Option.some.inj mem ▸ holds

end Points

/-! Expressions. -/

/-- Evaluation fails at a part of the expression. -/
theorem place_of_eval {c : Eval.Context} {e : ConstExpr} {error : EvalError} (placed : e.Placed P)
    (failed : c.eval e = .error error) : P error.span := by
  have located {r : Except EvalFault ConstValue} {span : Span} (place : P span)
      (failed : r.mapError (⟨·, span⟩ : EvalFault → EvalError) = .error error) :
      P error.span := by
    cases r with
    | ok value => cases failed
    | error fault =>
      cases failed
      exact place
  induction e with
  | literal l span value =>
    rw [Eval.Context.eval] at failed
    exact located placed failed
  | name n span value =>
    rw [Eval.Context.eval] at failed
    exact located placed failed
  | unary op operand span value ih =>
    rw [Eval.Context.eval] at failed
    cases inner : c.eval operand with
    | error other =>
      rw [inner] at failed
      cases failed
      exact ih placed.1 inner
    | ok v =>
      rw [inner] at failed
      exact located placed.2 failed
  | binary op left right span value left_ih right_ih =>
    rw [Eval.Context.eval] at failed
    cases first : c.eval left with
    | error other =>
      rw [first] at failed
      cases failed
      exact left_ih placed.1 first
    | ok a =>
      cases second : c.eval right with
      | error other =>
        rw [first, second] at failed
        cases failed
        exact right_ih placed.2.1 second
      | ok b =>
        rw [first, second] at failed
        exact located placed.2.2 failed

theorem place_of_evaluate {t : SymbolTable} {scope : SymbolId} {type : ConstType} {e : ConstExpr}
    {error : EvalError} (placed : e.Placed P) (failed : evaluate t scope type e = .error error) :
    P error.span := by
  cases value : Eval.Context.eval ⟨t, scope, type⟩ e with
  | error other =>
    simp only [evaluate, value] at failed
    cases failed
    exact place_of_eval placed value
  | ok v =>
    simp only [evaluate, value] at failed
    dsimp only [bind, Except.bind] at failed
    split at failed
    · split at failed
      · cases failed
      · cases failed
        exact placed.span
    · cases failed

theorem placed_exprOutcome (scope : SymbolId) (type : ConstType) (t : SymbolTable) {e : ConstExpr}
    (placed : e.Placed P) : (∀ error ∈ (exprOutcome scope type t e).2, P error.span) ∧
      (exprOutcome scope type t e).1.Placed P := by
  rw [exprOutcome]
  cases value : evaluate t scope type e with
  | ok constant => exact ⟨List.forall_mem_nil _, placed.withValue _⟩
  | error error =>
    refine ⟨fun other mem => ?_, placed⟩
    simp only [faultErrors] at mem
    split at mem
    · cases mem
    · rw [List.mem_singleton.mp mem]
      exact place_of_evaluate placed value

theorem placed_nameOutcome (scope : SymbolId) (t : SymbolTable) {type : NamedType}
    (placed : type.Placed P) : (∀ error ∈ (nameOutcome scope t type).2, P error.span) ∧
      (nameOutcome scope t type).1.Placed P := by
  rw [nameOutcome]
  split
  · split
    · exact ⟨List.forall_mem_nil _, placed⟩
    · exact ⟨fun _ mem => List.mem_singleton.mp mem ▸ placed, placed⟩
  · exact ⟨fun _ mem => List.mem_singleton.mp mem ▸ placed, placed⟩

section

variable (scope : SymbolId)

theorem points_evaluated (type : ConstType) {e : ConstExpr} (placed : e.Placed P) :
    Points P (evaluated scope type e) fun r => r.1.Placed P := by
  intro b good
  rw [run_evaluated]
  obtain ⟨errors, placed⟩ := placed_exprOutcome scope type b.table placed
  exact ⟨List.forall_mem_append.mpr ⟨good, errors⟩, placed⟩

theorem points_expr (type : ConstType) {e : ConstExpr} (placed : e.Placed P) :
    Points P (expr scope type e) (ConstExpr.Placed P) :=
  (points_evaluated scope type placed).bind fun _ placed => .pure placed

theorem points_size? {e : Option ConstExpr} (placed : ∀ x ∈ e, x.Placed P) :
    Points P (size? scope e) fun e => ∀ x ∈ e, x.Placed P :=
  .mapOption fun x mem => points_expr scope sizeType (placed x mem)

/-! Annotations and declarators. -/

theorem points_valueParam (type : ConstType) {ps : List (Ident × ConstExpr)}
    (placed : ∀ p ∈ ps, p.2.Placed P) :
    Points P (valueParam scope type ps) fun ps => ∀ p ∈ ps, p.2.Placed P := by
  induction ps with
  | nil => exact .pure (by simp)
  | cons p rest ih =>
    obtain ⟨name, e⟩ := p
    rw [List.forall_mem_cons] at placed
    rw [valueParam]
    split
    · exact (points_expr scope type placed.1).bind fun _ first =>
        .pure (List.forall_mem_cons.mpr ⟨first, placed.2⟩)
    · exact (ih placed.2).bind fun _ rest => .pure (List.forall_mem_cons.mpr ⟨placed.1, rest⟩)

theorem points_annotationUse {a : AnnotationUse} (placed : a.Placed P) :
    Points P (annotationUse scope a) (AnnotationUse.Placed P) := by
  obtain ⟨name, args, span⟩ := a
  obtain ⟨parts, place⟩ := placed
  rw [annotationUse]
  split
  · exact .pure ⟨parts, place⟩
  · cases args with
    | none => exact .pure ⟨parts, place⟩
    | single e => exact (points_expr scope _ parts).bind fun _ placed => .pure ⟨placed, place⟩
    | named params =>
      exact (points_valueParam scope _ parts).bind fun _ placed => .pure ⟨placed, place⟩

theorem points_annotations {as : List AnnotationUse} (placed : ∀ a ∈ as, a.Placed P) :
    Points P (annotations scope as) fun as => ∀ a ∈ as, a.Placed P :=
  .mapM fun a mem => points_annotationUse scope (placed a mem)

theorem points_declarator {d : Declarator} (placed : d.Placed P) :
    Points P (declarator scope d) (Declarator.Placed P) :=
  (Points.mapM fun e mem => points_expr scope sizeType (placed.dims e mem)).bind fun _ dims =>
    .pure ⟨placed.name, dims⟩

/-! Types. -/

theorem points_scopeOf (name : Ident) : Points P (scopeOf name scope) fun _ => True :=
  (Points.look _).bind fun _ _ => .pure trivial

theorem points_namedType {type : NamedType} (placed : type.Placed P) :
    Points P (namedType scope type) (NamedType.Placed P) :=
  .outcome (f := (nameOutcome scope · type)) (run_namedType scope type) fun t =>
    placed_nameOutcome scope t placed

theorem points_base (owner : Ident) (kind : SymbolKind) {type : NamedType}
    (placed : type.Placed P) : Points P (base scope owner kind type) (NamedType.Placed P) := by
  refine (points_namedType scope placed).bind fun type placed => ?_
  split
  · exact .pure placed
  · refine (Points.look _).bind fun found _ => ?_
    split
    · exact .pure placed
    · exact (Points.report _ placed).bind fun _ _ => .pure placed

theorem points_enumerator {v : Enumerator} (placed : v.Placed P) :
    Points P (enumerator scope v) (Enumerator.Placed P) :=
  (points_annotations scope placed.annotations).bind fun _ as => .pure ⟨as, placed.name⟩

theorem points_enumType {t : EnumType} (placed : t.Placed P) :
    Points P (enumType scope t) (EnumType.Placed P) :=
  (Points.mapM fun v mem => points_enumerator scope (placed.enumerators v mem)).bind
    fun _ all => .pure ⟨placed.name, all⟩

theorem points_bitmaskType {t : BitmaskType} (placed : t.Placed P) :
    Points P (bitmaskType scope t) (BitmaskType.Placed P) :=
  (Points.mapM fun v mem => points_enumerator scope (placed.values v mem)).bind
    fun _ all => .pure ⟨placed.name, all⟩

theorem points_bitfield {f : Bitfield} (placed : f.Placed P) :
    Points P (bitfield scope f) (Bitfield.Placed P) :=
  (points_annotations scope placed.annotations).bind fun _ as =>
    (points_expr scope sizeType placed.width).bind fun _ width => .pure ⟨as, width, placed.names⟩

theorem points_bitsetType {t : BitsetType} (placed : t.Placed P) :
    Points P (bitsetType scope t) (BitsetType.Placed P) :=
  (Points.mapOption fun b mem => points_base scope t.name .bitset (placed.base b mem)).bind
    fun _ base => (Points.mapM fun f mem => points_bitfield scope (placed.bitfields f mem)).bind
    fun _ fields => .pure ⟨placed.name, base, fields⟩

theorem points_caseLabel (type : Option ConstType) {label : CaseLabel} (placed : label.Placed P) :
    Points P (caseLabel scope type label) (CaseLabel.Placed P) := by
  cases type with
  | none => exact .pure placed
  | some type =>
    cases label with
    | value e => exact (points_expr scope type placed).bind fun _ placed => .pure placed
    | default span => exact .pure placed

end

mutual

theorem points_typeSpec (scope : SymbolId) : (τ : TypeSpec) → τ.Placed P →
    Points P (typeSpec scope τ) (TypeSpec.Placed P)
  | .primitive k, placed => by
    rw [typeSpec]
    exact .pure placed
  | .named type, placed => by
    rw [TypeSpec.Placed] at placed
    rw [typeSpec]
    exact (points_namedType scope placed).bind fun _ placed => .pure (by rwa [TypeSpec.Placed])
  | .sequence element bound, placed => by
    rw [TypeSpec.Placed] at placed
    rw [typeSpec]
    refine (points_typeSpec scope element placed.1).bind fun _ τ =>
      (points_size? scope placed.2).bind fun _ bound => .pure ?_
    rw [TypeSpec.Placed]
    exact ⟨τ, bound⟩
  | .set element bound, placed => by
    rw [TypeSpec.Placed] at placed
    rw [typeSpec]
    refine (points_typeSpec scope element placed.1).bind fun _ τ =>
      (points_size? scope placed.2).bind fun _ bound => .pure ?_
    rw [TypeSpec.Placed]
    exact ⟨τ, bound⟩
  | .map key value bound, placed => by
    rw [TypeSpec.Placed] at placed
    rw [typeSpec]
    refine (points_typeSpec scope key placed.1).bind fun _ key =>
      (points_typeSpec scope value placed.2.1).bind fun _ value =>
      (points_size? scope placed.2.2).bind fun _ bound => .pure ?_
    rw [TypeSpec.Placed]
    exact ⟨key, value, bound⟩
  | .string bound, placed => by
    rw [TypeSpec.Placed] at placed
    rw [typeSpec]
    exact (points_size? scope placed).bind fun _ bound => .pure (by rwa [TypeSpec.Placed])
  | .wstring bound, placed => by
    rw [TypeSpec.Placed] at placed
    rw [typeSpec]
    exact (points_size? scope placed).bind fun _ bound => .pure (by rwa [TypeSpec.Placed])
  | .fixed none, placed => by
    rw [typeSpec]
    exact .pure placed
  | .fixed (some (digits, scale)), placed => by
    rw [TypeSpec.Placed] at placed
    rw [typeSpec]
    refine (points_expr scope sizeType placed.1).bind fun _ digits =>
      (points_expr scope sizeType placed.2).bind fun _ scale => .pure ?_
    rw [TypeSpec.Placed]
    exact ⟨digits, scale⟩
  | .struct t, placed => by
    rw [typeSpec]
    exact (points_structType scope t placed).bind fun _ placed => .pure placed
  | .union t, placed => by
    rw [typeSpec]
    exact (points_unionType scope t placed).bind fun _ placed => .pure placed
  | .enum t, placed => by
    rw [TypeSpec.Placed] at placed
    rw [typeSpec]
    exact (points_enumType scope placed).bind fun _ placed => .pure (by rwa [TypeSpec.Placed])
  | .bitset t, placed => by
    rw [TypeSpec.Placed] at placed
    rw [typeSpec]
    exact (points_bitsetType scope placed).bind fun _ placed => .pure (by rwa [TypeSpec.Placed])
  | .bitmask t, placed => by
    rw [TypeSpec.Placed] at placed
    rw [typeSpec]
    exact (points_bitmaskType scope placed).bind fun _ placed => .pure (by rwa [TypeSpec.Placed])

theorem points_structType (scope : SymbolId) : (t : StructType TypeSpec) →
    (TypeSpec.struct t).Placed P →
    Points P (structType scope t) fun t => (TypeSpec.struct t).Placed P
  | ⟨name, b, fields, span⟩, placed => by
    rw [TypeSpec.Placed] at placed
    rw [structType]
    refine (Points.mapOption fun x mem => points_base scope name .struct (placed.2.1 x mem)).bind
      fun _ base => (points_scopeOf scope name).bind fun id _ =>
      (points_members id fields placed.2.2).bind fun _ fields => .pure ?_
    rw [TypeSpec.Placed]
    exact ⟨placed.1, base, fields⟩

theorem points_members (scope : SymbolId) : (ms : List (Member TypeSpec)) → membersPlaced P ms →
    Points P (members scope ms) (membersPlaced P)
  | [], placed => by
    rw [members]
    exact .pure placed
  | ⟨as, type, ds, span⟩ :: rest, placed => by
    rw [membersPlaced] at placed
    rw [members]
    refine (points_annotations scope placed.1.1).bind fun _ as =>
      (points_typeSpec scope type placed.1.2.1).bind fun _ τ =>
      (Points.mapM fun d mem => points_declarator scope (placed.1.2.2 d mem)).bind fun _ ds =>
      (points_members scope rest placed.2).bind fun _ rest => .pure ?_
    rw [membersPlaced]
    exact ⟨⟨as, τ, ds⟩, rest⟩

theorem points_unionType (scope : SymbolId) : (t : UnionType TypeSpec) →
    (TypeSpec.union t).Placed P →
    Points P (unionType scope t) fun t => (TypeSpec.union t).Placed P
  | ⟨name, ⟨as, type, switchSpan⟩, cases, span⟩, placed => by
    rw [TypeSpec.Placed] at placed
    rw [unionType]
    refine (points_scopeOf scope name).bind fun id _ =>
      (points_annotations id placed.2.1).bind fun _ as =>
      (points_typeSpec id type placed.2.2.1).bind fun _ τ => (Points.look _).bind fun labels _ =>
      (points_unionCases id labels cases placed.2.2.2.2).bind fun _ cases => .pure ?_
    rw [TypeSpec.Placed]
    exact ⟨placed.1, as, τ, placed.2.2.2.1, cases⟩

theorem points_unionCases (scope : SymbolId) (labelType : Option ConstType) :
    (cs : List (UnionCase TypeSpec)) → casesPlaced P cs →
    Points P (unionCases scope labelType cs) (casesPlaced P)
  | [], placed => by
    rw [unionCases]
    exact .pure placed
  | ⟨labels, as, type, d, span⟩ :: rest, placed => by
    rw [casesPlaced] at placed
    rw [unionCases]
    refine (Points.mapM fun l mem => points_caseLabel scope labelType (placed.1.1 l mem)).bind
      fun _ labels => (points_annotations scope placed.1.2.1).bind fun _ as =>
      (points_typeSpec scope type placed.1.2.2.1).bind fun _ τ =>
      (points_declarator scope placed.1.2.2.2).bind fun _ d =>
      (points_unionCases scope labelType rest placed.2).bind fun _ rest => .pure ?_
    rw [casesPlaced]
    exact ⟨⟨labels, as, τ, d⟩, rest⟩

end

/-! Definitions. -/

section

variable (scope : SymbolId)

theorem points_typedefDeclarator (type : TypeSpec) {d : Declarator} (placed : d.Placed P) :
    Points P (typedefDeclarator scope type d) (Declarator.Placed P) := by
  refine (points_declarator scope placed).bind fun d placed => ?_
  exact (Points.changeTable (aliasTo type · d)).bind fun _ _ => .pure placed

theorem points_typedef {d : Typedef} (placed : d.Placed P) :
    Points P (typedef scope d) (Typedef.Placed P) :=
  (points_typeSpec scope d.type placed.type).bind fun type τ =>
    (Points.mapM fun x mem =>
      points_typedefDeclarator scope type (placed.declarators x mem)).bind fun _ ds => .pure ⟨τ, ds⟩

theorem points_constValue (type : TypeSpec) {name : Ident} (named : name.Placed P)
    {value : ConstExpr} (placed : value.Placed P) :
    Points P (constValue scope type name value) fun r => r.1.Placed P := by
  refine (Points.look _).bind fun constType _ => ?_
  cases constType with
  | none => exact (Points.report _ named).bind fun _ _ => .pure placed
  | some constType =>
    refine (points_evaluated scope constType placed).bind fun r placed => ?_
    obtain ⟨e, success⟩ := r
    dsimp only
    split
    · exact .pure placed
    · exact .pure placed

theorem points_constDecl {d : ConstDecl} (placed : d.Placed P) :
    Points P (constDecl scope d) (ConstDecl.Placed P) := by
  refine (points_typeSpec scope d.type placed.type).bind fun type τ =>
    (points_constValue scope type placed.name placed.value).bind fun r value => ?_
  obtain ⟨e, slot⟩ := r
  have bound : ConstDecl.Placed P { d with type, value := e } := ⟨τ, placed.name, value⟩
  refine (Points.look _).bind fun id _ => ?_
  cases id with
  | none => exact .pure bound
  | some id => exact (Points.changeTable (·.setConstant id slot)).bind fun _ _ => .pure bound

theorem points_stateMember {m : StateMember} (placed : m.member.Placed P) :
    Points P (stateMember scope m) fun m => m.member.Placed P := by
  have single : membersPlaced P [m.member] := (membersPlaced_iff _).mpr (by simpa using placed)
  refine (points_members scope [m.member] single).bind fun ms placed' => ?_
  cases ms with
  | nil => exact .pure placed
  | cons member rest => exact .pure ((membersPlaced_iff _).mp placed' member (by simp))

end

mutual

theorem points_definition (scope : SymbolId) : (d : Definition) → d.Placed P →
    Points P (definition scope d) (Definition.Placed P)
  | ⟨as, kind, span⟩, placed => by
    rw [Definition.Placed] at placed
    rw [definition]
    refine (points_annotations scope placed.1).bind fun _ as =>
      (points_definitionKind scope kind placed.2).bind fun _ kind => .pure ?_
    rw [Definition.Placed]
    exact ⟨as, kind⟩

theorem points_definitionKind (scope : SymbolId) : (kind : DefinitionKind Definition) →
    kindPlaced P kind → Points P (definitionKind scope kind) (kindPlaced P)
  | .module ⟨name, ds⟩, placed => by
    rw [definitionKind]
    refine (Points.look _).bind fun id _ => ?_
    cases id with
    | none => exact .pure placed
    | some id =>
      rw [kindPlaced] at placed
      refine (points_definitions id ds placed.2).bind fun _ all => .pure ?_
      rw [kindPlaced]
      exact ⟨placed.1, all⟩
  | .struct t, placed => by
    rw [kindPlaced] at placed
    rw [definitionKind]
    exact (points_structType scope t placed).bind fun _ placed => .pure (by rwa [kindPlaced])
  | .union t, placed => by
    rw [kindPlaced] at placed
    rw [definitionKind]
    exact (points_unionType scope t placed).bind fun _ placed => .pure (by rwa [kindPlaced])
  | .enum t, placed => by
    rw [kindPlaced] at placed
    rw [definitionKind]
    exact (points_enumType scope placed).bind fun _ placed => .pure (by rwa [kindPlaced])
  | .bitset t, placed => by
    rw [kindPlaced] at placed
    rw [definitionKind]
    exact (points_bitsetType scope placed).bind fun _ placed => .pure (by rwa [kindPlaced])
  | .bitmask t, placed => by
    rw [kindPlaced] at placed
    rw [definitionKind]
    exact (points_bitmaskType scope placed).bind fun _ placed => .pure (by rwa [kindPlaced])
  | .typedef d, placed => by
    rw [kindPlaced] at placed
    rw [definitionKind]
    exact (points_typedef scope placed).bind fun _ placed => .pure (by rwa [kindPlaced])
  | .const d, placed => by
    rw [kindPlaced] at placed
    rw [definitionKind]
    exact (points_constDecl scope placed).bind fun _ placed => .pure (by rwa [kindPlaced])
  | .exception d, placed => by
    rw [kindPlaced] at placed
    rw [definitionKind]
    refine (points_scopeOf scope d.name).bind fun id _ =>
      (points_members id d.members placed.members).bind fun _ fields => .pure ?_
    rw [kindPlaced]
    exact ⟨placed.name, fields⟩
  | .interface ⟨name, q, bases, body⟩, placed => by
    rw [kindPlaced] at placed
    rw [definitionKind]
    refine (points_scopeOf scope name).bind fun id _ =>
      (points_exports id body placed.2).bind fun _ body => .pure ?_
    rw [kindPlaced]
    exact ⟨placed.1, body⟩
  | .value ⟨name, q, truncatable, bases, supports, body⟩, placed => by
    rw [kindPlaced] at placed
    rw [definitionKind]
    refine (points_scopeOf scope name).bind fun id _ =>
      (points_exports id body placed.2).bind fun _ body => .pure ?_
    rw [kindPlaced]
    exact ⟨placed.1, body⟩
  | .event ⟨name, q, truncatable, bases, supports, body⟩, placed => by
    rw [kindPlaced] at placed
    rw [definitionKind]
    refine (points_scopeOf scope name).bind fun id _ =>
      (points_exports id body placed.2).bind fun _ body => .pure ?_
    rw [kindPlaced]
    exact ⟨placed.1, body⟩
  | .valueBox d, placed => by
    rw [kindPlaced] at placed
    rw [definitionKind]
    refine (points_typeSpec scope d.type placed.type).bind fun _ τ => .pure ?_
    rw [kindPlaced]
    exact ⟨placed.name, τ⟩
  | .component ⟨name, b, supports, body⟩, placed => by
    rw [kindPlaced] at placed
    rw [definitionKind]
    refine (points_scopeOf scope name).bind fun id _ =>
      (points_exports id body placed.2).bind fun _ body => .pure ?_
    rw [kindPlaced]
    exact ⟨placed.1, body⟩
  | .home ⟨name, b, supports, manages, key, body⟩, placed => by
    rw [kindPlaced] at placed
    rw [definitionKind]
    refine (points_scopeOf scope name).bind fun id _ =>
      (points_exports id body placed.2).bind fun _ body => .pure ?_
    rw [kindPlaced]
    exact ⟨placed.1, body⟩
  | .native name, placed => by rw [definitionKind]; exact .pure placed
  | .forward d, placed => by rw [definitionKind]; exact .pure placed
  | .typeId d, placed => by rw [definitionKind]; exact .pure placed
  | .typePrefix d, placed => by rw [definitionKind]; exact .pure placed
  | .annotationDecl d, placed => by rw [definitionKind]; exact .pure placed

theorem points_definitions (scope : SymbolId) : (ds : List Definition) → allPlaced P ds →
    Points P (definitions scope ds) (allPlaced P)
  | [], placed => by
    rw [definitions]
    exact .pure placed
  | d :: ds, placed => by
    rw [allPlaced] at placed
    rw [definitions]
    refine (points_definition scope d placed.1).bind fun _ first =>
      (points_definitions scope ds placed.2).bind fun _ rest => .pure ?_
    rw [allPlaced]
    exact ⟨first, rest⟩

theorem points_exports (scope : SymbolId) : (es : List (Export Definition)) → exportsPlaced P es →
    Points P (exports scope es) (exportsPlaced P)
  | [], placed => by
    rw [exports]
    exact .pure placed
  | .definition d :: rest, placed => by
    rw [exportsPlaced] at placed
    rw [exports]
    refine (points_definition scope d placed.1).bind fun _ first =>
      (points_exports scope rest placed.2).bind fun _ rest => .pure ?_
    rw [exportsPlaced]
    exact ⟨first, rest⟩
  | .stateMember m :: rest, placed => by
    rw [exportsPlaced] at placed
    rw [exports]
    refine (points_stateMember scope placed.1).bind fun _ first =>
      (points_exports scope rest placed.2).bind fun _ rest => .pure ?_
    rw [exportsPlaced]
    exact ⟨first, rest⟩
  | .attribute _ :: rest, placed => by
    rw [exportsPlaced] at placed
    rw [exports]
    exact (points_exports scope rest placed).bind fun _ rest => .pure (by rwa [exportsPlaced])
  | .operation _ :: rest, placed => by
    rw [exportsPlaced] at placed
    rw [exports]
    exact (points_exports scope rest placed).bind fun _ rest => .pure (by rwa [exportsPlaced])
  | .initializer _ :: rest, placed => by
    rw [exportsPlaced] at placed
    rw [exports]
    exact (points_exports scope rest placed).bind fun _ rest => .pure (by rwa [exportsPlaced])
  | .port _ :: rest, placed => by
    rw [exportsPlaced] at placed
    rw [exports]
    exact (points_exports scope rest placed).bind fun _ rest => .pure (by rwa [exportsPlaced])

end

end Binding

/-- The bound unit has good places, and so have the errors of binding it. -/
theorem placed_bindUnit {P : Span → Prop} {s : Specification} (placed : allPlaced P s.definitions)
    (t : SymbolTable) : allPlaced P (bindUnit s t).specification.definitions ∧
      ∀ e ∈ (bindUnit s t).errors, P e.span := by
  obtain ⟨good, placed⟩ := Binding.points_definitions SymbolTable.rootId s.definitions placed
    ⟨Binding.allAliases SymbolTable.rootId s.definitions t, []⟩ (List.forall_mem_nil _)
  exact ⟨placed, good⟩

end Idl
