import Idl.Proofs.Binding.EchoType

/-!
The expressions that binding evaluates inside types, over which table and in which order. Types
leave the table as it is, so what they bind to and report depends on the table alone. Main
statement: `evaluates_typeSpec`.
-/

set_option autoImplicit false

namespace Idl.Binding

/-- An expression that is evaluated: over which table, in which scope and as what. -/
structure Evaluation where
  table : SymbolTable
  scope : SymbolId
  type : ConstType
  expr : ConstExpr

/-- What is reported of the evaluation, if it fails. -/
def Evaluation.errors (q : Evaluation) : List BindingError :=
  (exprOutcome q.scope q.type q.table q.expr).2

/-- The error is one of evaluation. -/
def isEval (e : BindingError) : Bool :=
  match e.fault with
  | .eval _ => true
  | _ => false

/-- What a step returns over a table. -/
def result {α : Type} (p : BindM α) (t : SymbolTable) : α := (p.run ⟨t, []⟩).1

/-- What a step reports over a table. -/
def reports {α : Type} (p : BindM α) (t : SymbolTable) : List BindingError :=
  (p.run ⟨t, []⟩).2.errors

section

variable (t : SymbolTable) (scope : SymbolId)

def sizeEvaluations (es : List ConstExpr) : List Evaluation :=
  es.map fun e => ⟨t, scope, sizeType, e⟩

/-- The arguments of a known annotation. Of named ones, it is the first that is called `value`. -/
def argEvaluations (type : ConstType) : AnnotationArgs → List Evaluation
  | .none => []
  | .single e => [⟨t, scope, type, e⟩]
  | .named params =>
    (params.find? (·.1.name = "value")).toList.map fun p => ⟨t, scope, type, p.2⟩

def annotationEvaluations (as : List AnnotationUse) : List Evaluation :=
  as.flatMap fun a =>
    (annotationType? a.simpleName).toList.flatMap fun type => argEvaluations t scope type a.args

def dimEvaluations (ds : List Declarator) : List Evaluation :=
  ds.flatMap fun d => sizeEvaluations t scope d.dims

def listEvaluations (vs : List Enumerator) : List Evaluation :=
  vs.flatMap fun v => annotationEvaluations t scope v.annotations

def bitfieldEvaluations (fs : List Bitfield) : List Evaluation :=
  fs.flatMap fun f =>
    annotationEvaluations t scope f.annotations ++ sizeEvaluations t scope [f.width]

/-- Labels are evaluated if the discriminant admits any. -/
def labelEvaluations (labelType : Option ConstType) (ls : List CaseLabel) : List Evaluation :=
  ls.flatMap fun l =>
    match labelType, l with
    | some type, .value e => [⟨t, scope, type, e⟩]
    | _, _ => []

end

mutual

def typeEvaluations (t : SymbolTable) (scope : SymbolId) : TypeSpec → List Evaluation
  | .primitive _ => []
  | .named _ => []
  | .sequence element bound =>
    typeEvaluations t scope element ++ sizeEvaluations t scope bound.toList
  | .set element bound =>
    typeEvaluations t scope element ++ sizeEvaluations t scope bound.toList
  | .map key value bound =>
    typeEvaluations t scope key ++ (typeEvaluations t scope value ++
      sizeEvaluations t scope bound.toList)
  | .string bound => sizeEvaluations t scope bound.toList
  | .wstring bound => sizeEvaluations t scope bound.toList
  | .fixed none => []
  | .fixed (some (digits, scale)) => sizeEvaluations t scope [digits, scale]
  | .struct ⟨name, _, fields, _⟩ =>
    memberEvaluations t ((t.definedAt? name.span).getD scope) fields
  | .union ⟨name, ⟨as, type, _⟩, cases, _⟩ =>
    let id := (t.definedAt? name.span).getD scope
    annotationEvaluations t id as ++ (typeEvaluations t id type ++
      caseEvaluations t id (t.discriminantType? (result (typeSpec id type) t)) cases)
  | .enum e => listEvaluations t scope e.enumerators
  | .bitset s => bitfieldEvaluations t scope s.bitfields
  | .bitmask s => listEvaluations t scope s.values

def memberEvaluations (t : SymbolTable) (scope : SymbolId) : List (Member TypeSpec) →
    List Evaluation
  | [] => []
  | ⟨as, type, ds, _⟩ :: rest =>
    annotationEvaluations t scope as ++ (typeEvaluations t scope type ++
      (dimEvaluations t scope ds ++ memberEvaluations t scope rest))

def caseEvaluations (t : SymbolTable) (scope : SymbolId) (labelType : Option ConstType) :
    List (UnionCase TypeSpec) → List Evaluation
  | [] => []
  | ⟨labels, as, type, d, _⟩ :: rest =>
    labelEvaluations t scope labelType labels ++ (annotationEvaluations t scope as ++
      (typeEvaluations t scope type ++ (dimEvaluations t scope [d] ++
        caseEvaluations t scope labelType rest)))

end

/-- A step reads the table alone, and its errors of evaluation are those of the evaluations. -/
structure Evaluates {α : Type} (p : BindM α) (qs : SymbolTable → List Evaluation) : Prop where
  run : ∀ b, p.run b = (result p b.table, ⟨b.table, b.errors ++ reports p b.table⟩)
  errors : ∀ t, (reports p t).filter isEval = (qs t).flatMap Evaluation.errors
  tables : ∀ t, ∀ q ∈ qs t, q.table = t

namespace Evaluates

variable {α β : Type} {p : BindM α} {k : α → BindM β} {qs rs : SymbolTable → List Evaluation}

theorem of_eq (evaluates : Evaluates p qs) (eq : ∀ t, rs t = qs t) : Evaluates p rs :=
  ⟨evaluates.run, fun t => by rw [eq, evaluates.errors],
    fun t => by rw [eq]; exact evaluates.tables t⟩

/-- A step whose outcome is known for each table. -/
theorem outcome {f : SymbolTable → α × List BindingError}
    (run : ∀ b, p.run b = ((f b.table).1, ⟨b.table, b.errors ++ (f b.table).2⟩))
    (errors : ∀ t, (f t).2.filter isEval = (qs t).flatMap Evaluation.errors)
    (tables : ∀ t, ∀ q ∈ qs t, q.table = t) : Evaluates p qs := by
  have silent (t : SymbolTable) : p.run ⟨t, []⟩ = ((f t).1, ⟨t, (f t).2⟩) := run ⟨t, []⟩
  constructor
  case run =>
    intro b
    rw [result, reports, silent, run]
  case errors =>
    intro t
    rw [reports, silent]
    exact errors t
  case tables => exact tables

theorem pure (a : α) : Evaluates (Pure.pure a) fun _ => [] :=
  outcome (f := fun _ => (a, [])) (fun b => by rw [List.append_nil]; rfl) (fun _ => rfl)
    fun _ => List.forall_mem_nil _

theorem look (f : SymbolTable → α) : Evaluates (table? f) fun _ => [] :=
  outcome (f := fun t => (f t, [])) (fun b => by rw [List.append_nil]; rfl) (fun _ => rfl)
    fun _ => List.forall_mem_nil _

theorem bind {rs : α → SymbolTable → List Evaluation} (first : Evaluates p qs)
    (second : ∀ a, Evaluates (k a) (rs a)) :
    Evaluates (p >>= k) fun t => qs t ++ rs (result p t) t := by
  refine outcome (f := fun t => (result (k (result p t)) t,
    reports p t ++ reports (k (result p t)) t)) (fun b => ?_) (fun t => ?_) fun t q mem => ?_
  · rw [run_bind (first.run b), (second _).run, List.append_assoc]
  · rw [List.filter_append, List.flatMap_append, first.errors, (second _).errors]
  · rcases List.mem_append.mp mem with mem | mem
    · exact first.tables t q mem
    · exact (second _).tables t q mem

/-- The second step evaluates the same whatever the first one gave. -/
theorem seq (first : Evaluates p qs) (second : ∀ a, Evaluates (k a) rs) :
    Evaluates (p >>= k) fun t => qs t ++ rs t :=
  first.bind second

/-- What comes last evaluates nothing. -/
theorem last (first : Evaluates p qs) (second : ∀ a, Evaluates (k a) fun _ => []) :
    Evaluates (p >>= k) qs :=
  (first.bind second).of_eq fun t => (List.append_nil (qs t)).symm

/-- What was looked up first. -/
theorem looked {f : SymbolTable → α} {rs : α → SymbolTable → List Evaluation}
    (second : ∀ a, Evaluates (k a) (rs a)) : Evaluates (table? f >>= k) fun t => rs (f t) t :=
  (look f).bind second

theorem mapM {f : α → BindM β} {V : SymbolTable → α → List Evaluation}
    (each : ∀ x, Evaluates (f x) (V · x)) (xs : List α) :
    Evaluates (xs.mapM f) fun t => xs.flatMap (V t) := by
  induction xs with
  | nil => exact pure []
  | cons x xs ih =>
    rw [List.mapM_cons]
    exact (each x).seq fun _ => ih.last fun _ => pure _

theorem mapOption {f : α → BindM β} {V : SymbolTable → α → List Evaluation}
    (each : ∀ x, Evaluates (f x) (V · x)) (x : Option α) :
    Evaluates (x.mapM f) fun t => x.toList.flatMap (V t) := by
  cases x with
  | none => exact pure none
  | some x =>
    refine (((each x).last fun _ => pure _)).of_eq fun t => ?_
    rw [Option.toList_some, List.flatMap_singleton]

end Evaluates

section

variable (scope : SymbolId)

theorem filter_exprOutcome (type : ConstType) (t : SymbolTable) (e : ConstExpr) :
    (exprOutcome scope type t e).2.filter isEval = (exprOutcome scope type t e).2 := by
  rw [exprOutcome]
  split
  · rfl
  · rw [faultErrors]
    split <;> rfl

theorem evaluates_evaluated (type : ConstType) (e : ConstExpr) :
    Evaluates (evaluated scope type e) fun t => [⟨t, scope, type, e⟩] := by
  refine .outcome (f := fun t => (((exprOutcome scope type t e).1,
    (evaluate t scope type e).toBool), (exprOutcome scope type t e).2))
    (run_evaluated scope type e) (fun t => ?_) fun t q mem => ?_
  · rw [List.flatMap_singleton]
    exact filter_exprOutcome scope type t e
  · rw [List.mem_singleton.mp mem]

theorem evaluates_expr (type : ConstType) (e : ConstExpr) :
    Evaluates (expr scope type e) fun t => [⟨t, scope, type, e⟩] :=
  (evaluates_evaluated scope type e).last fun _ => .pure _

theorem evaluates_size (e : ConstExpr) :
    Evaluates (size scope e) fun t => sizeEvaluations t scope [e] :=
  evaluates_expr scope sizeType e

theorem evaluates_size? (e : Option ConstExpr) :
    Evaluates (size? scope e) fun t => sizeEvaluations t scope e.toList :=
  (Evaluates.mapOption (evaluates_size scope) e).of_eq fun t => by
    cases e <;> simp [sizeEvaluations]

theorem evaluates_valueParam (type : ConstType) (ps : List (Ident × ConstExpr)) :
    Evaluates (valueParam scope type ps) fun t =>
      (ps.find? (·.1.name = "value")).toList.map fun p => ⟨t, scope, type, p.2⟩ := by
  induction ps with
  | nil => exact .pure _
  | cons p rest ih =>
    obtain ⟨name, e⟩ := p
    rw [valueParam]
    by_cases called : name.name = "value"
    · rw [if_pos called]
      refine ((evaluates_expr scope type e).last fun _ => .pure _).of_eq fun t => ?_
      simp [called]
    · rw [if_neg called]
      refine (ih.last fun _ => .pure _).of_eq fun t => ?_
      simp [called]

theorem evaluates_annotationUse (a : AnnotationUse) :
    Evaluates (annotationUse scope a) fun t =>
      (annotationType? a.simpleName).toList.flatMap fun type =>
        argEvaluations t scope type a.args := by
  obtain ⟨name, args, span⟩ := a
  rw [annotationUse]
  cases annotationType? (AnnotationUse.simpleName ⟨name, args, span⟩) with
  | none => exact .pure _
  | some type =>
    simp only [Option.toList_some, List.flatMap_singleton]
    cases args with
    | none => exact .pure _
    | single e => exact (evaluates_expr scope type e).last fun _ => .pure _
    | named params => exact (evaluates_valueParam scope type params).last fun _ => .pure _

theorem evaluates_annotations (as : List AnnotationUse) :
    Evaluates (annotations scope as) (annotationEvaluations · scope as) :=
  .mapM (evaluates_annotationUse scope) as

theorem evaluates_dims (es : List ConstExpr) :
    Evaluates (es.mapM (size scope)) (sizeEvaluations · scope es) :=
  (Evaluates.mapM (evaluates_size scope) es).of_eq fun _ => List.map_eq_flatMap

theorem evaluates_declarator (d : Declarator) :
    Evaluates (declarator scope d) (sizeEvaluations · scope d.dims) :=
  (evaluates_dims scope d.dims).last fun _ => .pure _

theorem filter_nameOutcome (t : SymbolTable) (type : NamedType) :
    (nameOutcome scope t type).2.filter isEval = [] := by
  rw [nameOutcome]
  split
  · split <;> rfl
  · rfl

theorem evaluates_namedType (type : NamedType) :
    Evaluates (namedType scope type) fun _ => [] :=
  .outcome (f := (nameOutcome scope · type)) (run_namedType scope type)
    (fun t => filter_nameOutcome scope t type) fun _ => List.forall_mem_nil _

theorem evaluates_base (owner : Ident) (kind : SymbolKind) (type : NamedType) :
    Evaluates (base scope owner kind type) fun _ => [] := by
  refine .outcome (f := (baseOutcome scope owner kind · type)) (run_base scope owner kind type)
    (fun t => ?_) fun _ => List.forall_mem_nil _
  have named := filter_nameOutcome scope t type
  simp only [baseOutcome]
  split
  · exact named
  · split
    · exact named
    · rw [List.filter_append, named]
      rfl

theorem evaluates_base? (owner : Ident) (kind : SymbolKind) (type : Option NamedType) :
    Evaluates (type.mapM (base scope owner kind)) fun _ => [] :=
  (Evaluates.mapOption (evaluates_base scope owner kind) type).of_eq fun t => by
    cases type <;> rfl

theorem evaluates_enumerator (v : Enumerator) :
    Evaluates (enumerator scope v) (annotationEvaluations · scope v.annotations) :=
  (evaluates_annotations scope v.annotations).last fun _ => .pure _

theorem evaluates_listed (vs : List Enumerator) :
    Evaluates (vs.mapM (enumerator scope)) (listEvaluations · scope vs) :=
  .mapM (evaluates_enumerator scope) vs

theorem evaluates_bitfield (f : Bitfield) :
    Evaluates (bitfield scope f) fun t =>
      annotationEvaluations t scope f.annotations ++ sizeEvaluations t scope [f.width] :=
  (evaluates_annotations scope f.annotations).seq fun _ =>
    (evaluates_size scope f.width).last fun _ => .pure _

theorem evaluates_bitfields (fs : List Bitfield) :
    Evaluates (fs.mapM (bitfield scope)) (bitfieldEvaluations · scope fs) :=
  .mapM (evaluates_bitfield scope) fs

theorem evaluates_enumType (e : EnumType) :
    Evaluates (enumType scope e) (listEvaluations · scope e.enumerators) :=
  (evaluates_listed scope e.enumerators).last fun _ => .pure _

theorem evaluates_bitmaskType (s : BitmaskType) :
    Evaluates (bitmaskType scope s) (listEvaluations · scope s.values) :=
  (evaluates_listed scope s.values).last fun _ => .pure _

theorem evaluates_bitsetType (s : BitsetType) :
    Evaluates (bitsetType scope s) (bitfieldEvaluations · scope s.bitfields) :=
  (evaluates_base? scope s.name .bitset s.base).seq fun _ =>
    (evaluates_bitfields scope s.bitfields).last fun _ => .pure _

theorem evaluates_labels (type : Option ConstType) (ls : List CaseLabel) :
    Evaluates (ls.mapM (caseLabel scope type)) (labelEvaluations · scope type ls) := by
  refine (Evaluates.mapM fun l => ?_) ls
  cases type with
  | none => exact .pure _
  | some type =>
    cases l with
    | value e => exact (evaluates_expr scope type e).last fun _ => .pure _
    | default span => exact .pure _

/-- A step within the scope that an identifier opens. -/
theorem Evaluates.inScope {α : Type} {k : SymbolId → BindM α}
    {qs : SymbolId → SymbolTable → List Evaluation} (name : Ident)
    (second : ∀ id, Evaluates (k id) (qs id)) :
    Evaluates (scopeOf name scope >>= k) fun t => qs ((t.definedAt? name.span).getD scope) t :=
  Evaluates.looked (f := fun t => (t.definedAt? name.span).getD scope) second

end

mutual

theorem evaluates_typeSpec (scope : SymbolId) : (τ : TypeSpec) →
    Evaluates (typeSpec scope τ) (typeEvaluations · scope τ)
  | .primitive _ => by
    rw [typeSpec]
    exact (Evaluates.pure _).of_eq fun _ => by rw [typeEvaluations]
  | .named type => by
    rw [typeSpec]
    exact ((evaluates_namedType scope type).last fun _ => .pure _).of_eq fun _ => by
      rw [typeEvaluations]
  | .sequence element bound => by
    rw [typeSpec]
    exact ((evaluates_typeSpec scope element).seq fun _ =>
      (evaluates_size? scope bound).last fun _ => .pure _).of_eq fun _ => by rw [typeEvaluations]
  | .set element bound => by
    rw [typeSpec]
    exact ((evaluates_typeSpec scope element).seq fun _ =>
      (evaluates_size? scope bound).last fun _ => .pure _).of_eq fun _ => by rw [typeEvaluations]
  | .map key value bound => by
    rw [typeSpec]
    exact ((evaluates_typeSpec scope key).seq fun _ => (evaluates_typeSpec scope value).seq fun _ =>
      (evaluates_size? scope bound).last fun _ => .pure _).of_eq fun _ => by rw [typeEvaluations]
  | .string bound => by
    rw [typeSpec]
    exact ((evaluates_size? scope bound).last fun _ => .pure _).of_eq fun _ => by
      rw [typeEvaluations]
  | .wstring bound => by
    rw [typeSpec]
    exact ((evaluates_size? scope bound).last fun _ => .pure _).of_eq fun _ => by
      rw [typeEvaluations]
  | .fixed none => by
    rw [typeSpec]
    exact (Evaluates.pure _).of_eq fun _ => by rw [typeEvaluations]
  | .fixed (some (digits, scale)) => by
    rw [typeSpec]
    exact ((evaluates_size scope digits).seq fun _ =>
      (evaluates_size scope scale).last fun _ => .pure _).of_eq fun _ => by
        rw [typeEvaluations]
        rfl
  | .struct s => by
    rw [typeSpec]
    exact ((evaluates_structType scope s).last fun _ => .pure _)
  | .union u => by
    rw [typeSpec]
    exact (evaluates_unionType scope u).last fun _ => .pure _
  | .enum e => by
    rw [typeSpec]
    exact ((evaluates_enumType scope e).last fun _ => .pure _).of_eq fun _ => by
      rw [typeEvaluations]
  | .bitset s => by
    rw [typeSpec]
    exact ((evaluates_bitsetType scope s).last fun _ => .pure _).of_eq fun _ => by
      rw [typeEvaluations]
  | .bitmask s => by
    rw [typeSpec]
    exact ((evaluates_bitmaskType scope s).last fun _ => .pure _).of_eq fun _ => by
      rw [typeEvaluations]

theorem evaluates_structType (scope : SymbolId) : (s : StructType TypeSpec) →
    Evaluates (structType scope s) (typeEvaluations · scope (.struct s))
  | ⟨name, b, fields, _⟩ => by
    rw [structType]
    exact ((evaluates_base? scope name .struct b).seq fun _ =>
      Evaluates.inScope scope name fun id => (evaluates_members id fields).last fun _ =>
        .pure _).of_eq fun _ => by rw [typeEvaluations, List.nil_append]

theorem evaluates_members (scope : SymbolId) : (ms : List (Member TypeSpec)) →
    Evaluates (members scope ms) (memberEvaluations · scope ms)
  | [] => by
    rw [members]
    exact (Evaluates.pure _).of_eq fun _ => by rw [memberEvaluations]
  | ⟨as, type, ds, _⟩ :: rest => by
    rw [members]
    exact ((evaluates_annotations scope as).seq fun _ =>
      (evaluates_typeSpec scope type).seq fun _ =>
      (Evaluates.mapM (evaluates_declarator scope) ds).seq fun _ =>
      (evaluates_members scope rest).last fun _ => .pure _).of_eq fun _ => by
        rw [memberEvaluations, dimEvaluations]

theorem evaluates_unionType (scope : SymbolId) : (u : UnionType TypeSpec) →
    Evaluates (unionType scope u) (typeEvaluations · scope (.union u))
  | ⟨name, ⟨as, type, _⟩, cases, _⟩ => by
    rw [unionType]
    refine (Evaluates.inScope scope name fun id => (evaluates_annotations id as).seq fun _ =>
      (evaluates_typeSpec id type).bind fun _ => Evaluates.looked fun labels =>
      (evaluates_unionCases id labels cases).last fun _ => .pure _).of_eq fun t => ?_
    rw [typeEvaluations]

theorem evaluates_unionCases (scope : SymbolId) (labelType : Option ConstType) :
    (cs : List (UnionCase TypeSpec)) →
    Evaluates (unionCases scope labelType cs) (caseEvaluations · scope labelType cs)
  | [] => by
    rw [unionCases]
    exact (Evaluates.pure _).of_eq fun _ => by rw [caseEvaluations]
  | ⟨labels, as, type, d, _⟩ :: rest => by
    rw [unionCases]
    exact ((evaluates_labels scope labelType labels).seq fun _ =>
      (evaluates_annotations scope as).seq fun _ => (evaluates_typeSpec scope type).seq fun _ =>
      (evaluates_declarator scope d).seq fun _ =>
      (evaluates_unionCases scope labelType rest).last fun _ => .pure _).of_eq fun _ => by
        rw [caseEvaluations, dimEvaluations, List.flatMap_singleton]

end

end Idl.Binding
