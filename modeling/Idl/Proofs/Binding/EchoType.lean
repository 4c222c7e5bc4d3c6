import Idl.Binding.Alias
import Idl.Proofs.Binding.Echo
import Idl.Proofs.Grammar.Formed
import Idl.Scope.Build
import Mathlib.Data.List.Forall2

/-!
Binding a type a second time changes nothing: what is bound keeps its names, fails where it failed
before, and declares what it did. Main statement: `echo_typeSpec`.
-/

set_option autoImplicit false

namespace Idl.Binding

/-! What binding keeps of a type. -/

/-- The types declare the same, and have one head for typedefs of them. -/
structure Kept (τ σ : TypeSpec) : Prop where
  scopes : ∀ scope b, ScopeBuilder.typeSpec scope σ b = ScopeBuilder.typeSpec scope τ b
  head : ∀ t scope, (namesBound t scope σ).head = (namesBound t scope τ).head

def KeptMembers (ms ns : List (Member TypeSpec)) : Prop :=
  ∀ scope b, ScopeBuilder.members scope ns b = ScopeBuilder.members scope ms b

def KeptCases (cs es : List (UnionCase TypeSpec)) : Prop :=
  ∀ scope b, ScopeBuilder.unionCases scope es b = ScopeBuilder.unionCases scope cs b

structure KeptDeclarator (d e : Declarator) : Prop where
  name : e.name = d.name
  dims : e.dims.isEmpty = d.dims.isEmpty

structure KeptEnum (e e' : EnumType) : Prop where
  name : e'.name = e.name
  enumerators : e'.enumerators.map (·.name) = e.enumerators.map (·.name)

structure KeptBitmask (s s' : BitmaskType) : Prop where
  name : s'.name = s.name
  values : s'.values.map (·.name) = s.values.map (·.name)

theorem map_name_eq {vs ws : List Enumerator}
    (kept : List.Forall₂ (fun v w : Enumerator => w.name = v.name) vs ws) :
    ws.map (·.name) = vs.map (·.name) := by
  induction kept with
  | nil => rfl
  | cons first _ ih => rw [List.map_cons, List.map_cons, first, ih]

theorem KeptEnum.scopes {e e' : EnumType} (kept : KeptEnum e e') (scope : SymbolId)
    (b : ScopeBuilder) : b.enumType scope e' = b.enumType scope e := by
  rw [ScopeBuilder.enumType, ScopeBuilder.enumType, kept.name, kept.enumerators]

/-- The flags of a bitmask are entered by their names alone. -/
theorem bitmaskType_eq (s : BitmaskType) (scope : SymbolId) (b : ScopeBuilder) :
    b.bitmaskType scope s = (s.values.map (·.name)).zipIdx.foldl (fun c x =>
      (c.declare (b.declare scope s.name .bitmask).1 x.1
        (.bitValue (b.declare scope s.name .bitmask).1 x.2)).2)
      (b.declare scope s.name .bitmask).2 := by
  rw [List.zipIdx_map, List.foldl_map]
  rfl

theorem KeptBitmask.scopes {s s' : BitmaskType} (kept : KeptBitmask s s') (scope : SymbolId)
    (b : ScopeBuilder) : b.bitmaskType scope s' = b.bitmaskType scope s := by
  rw [bitmaskType_eq, bitmaskType_eq, kept.name, kept.values]

/-! Expressions. -/

variable {t : SymbolTable}

/-- What is reported when an expression has no value. -/
def faultErrors (error : EvalError) : List BindingError :=
  if error.isCascade then [] else [⟨.eval error.fault, error.span⟩]

/-- An expression with its value, and what is reported if it has none. -/
def exprOutcome (scope : SymbolId) (type : ConstType) (u : SymbolTable) (e : ConstExpr) :
    ConstExpr × List BindingError :=
  match evaluate u scope type e with
  | .ok constant => (e.withValue (some constant), [])
  | .error error => (e, faultErrors error)

theorem run_evaluated (scope : SymbolId) (type : ConstType) (e : ConstExpr) (b : Binding) :
    (evaluated scope type e).run b =
      (((exprOutcome scope type b.table e).1, (evaluate b.table scope type e).toBool),
        ⟨b.table, b.errors ++ (exprOutcome scope type b.table e).2⟩) := by
  have unfolded : (evaluated scope type e).run b =
      ((match evaluate b.table scope type e with
        | .ok constant => return (e.withValue (some constant), true)
        | .error error => do
          if !error.isCascade then report (.eval error.fault) error.span
          return (e, false) : BindM (ConstExpr × Bool))).run b := rfl
  rw [unfolded, exprOutcome]
  cases evaluate b.table scope type e with
  | ok constant =>
    rw [List.append_nil]
    rfl
  | error error =>
    simp only [faultErrors]
    cases error.isCascade with
    | true =>
      simp only [if_true, List.append_nil]
      rfl
    | false => rfl

theorem exprOutcome_congr {u v : SymbolTable} (same : SameConstants u v) (scope : SymbolId)
    (type : ConstType) (e : ConstExpr) :
    exprOutcome scope type v e = exprOutcome scope type u e := by
  rw [exprOutcome, exprOutcome, evaluate_congr same]

theorem exprOutcome_again (scope : SymbolId) (type : ConstType) (u : SymbolTable) (e : ConstExpr) :
    exprOutcome scope type u (exprOutcome scope type u e).1 = exprOutcome scope type u e := by
  cases value : evaluate u scope type e with
  | ok constant =>
    have first : exprOutcome scope type u e = (e.withValue (some constant), []) := by
      rw [exprOutcome, value]
    have twice : (e.withValue (some constant)).withValue (some constant) =
        e.withValue (some constant) := by cases e <;> rfl
    rw [first]
    simp only [exprOutcome, evaluate_withValue, value, twice]
  | error error =>
    have first : exprOutcome scope type u e = (e, faultErrors error) := by rw [exprOutcome, value]
    rw [first, exprOutcome, value]

theorem echo_expr (scope : SymbolId) (type : ConstType) (e : ConstExpr) :
    Echo t [] (expr scope type) e fun _ => True := by
  refine Echo.outcome (exprOutcome scope type) (fun e b => ?_)
    (fun _ _ e same => exprOutcome_congr same scope type e)
    (fun u => exprOutcome_again scope type u e) fun _ => trivial
  have unfolded : (expr scope type e).run b =
      (((evaluated scope type e).run b).1.1, ((evaluated scope type e).run b).2) := rfl
  rw [unfolded, run_evaluated]

theorem echo_size? (scope : SymbolId) (e : Option ConstExpr) :
    Echo t [] (size? scope) e fun _ => True :=
  Echo.option fun e _ => echo_expr scope sizeType e

theorem echo_valueParam (scope : SymbolId) (type : ConstType) (ps : List (Ident × ConstExpr)) :
    Echo t [] (valueParam scope type) ps fun _ => True := by
  induction ps with
  | nil => exact Echo.pure rfl trivial
  | cons p ps ih =>
    obtain ⟨name, e⟩ := p
    by_cases called : name.name = "value"
    · exact (echo_expr scope type e).map (m := fun e => (name, e) :: ps)
        (fun e => by rw [valueParam, if_pos called]) fun _ _ => trivial
    · exact ih.map (m := fun ps => (name, e) :: ps)
        (fun ps => by rw [valueParam, if_neg called]) fun _ _ => trivial

theorem echo_annotationUse (scope : SymbolId) (a : AnnotationUse) :
    Echo t [] (annotationUse scope) a fun _ => True := by
  obtain ⟨name, args, span⟩ := a
  cases type : annotationType? name.last.name with
  | none =>
    have stays (args : AnnotationArgs) : annotationUse scope ⟨name, args, span⟩ =
        Pure.pure ⟨name, args, span⟩ := by
      rw [annotationUse, AnnotationUse.simpleName, type]
    exact Echo.pure (stays args) trivial
  | some type' =>
    cases args with
    | none =>
      refine Echo.pure ?_ trivial
      rw [annotationUse, AnnotationUse.simpleName, type]
    | single e =>
      refine (echo_expr scope type' e).map
        (m := fun e => (⟨name, .single e, span⟩ : AnnotationUse)) (fun e => ?_) fun _ _ => trivial
      rw [annotationUse, AnnotationUse.simpleName, type]
    | named params =>
      refine (echo_valueParam scope type' params).map
        (m := fun ps => (⟨name, .named ps, span⟩ : AnnotationUse)) (fun ps => ?_) fun _ _ => trivial
      rw [annotationUse, AnnotationUse.simpleName, type]

/-- A list of steps that visit no typedefs. -/
theorem echo_each {α : Type} {f : α → BindM α} {R : α → α → Prop} (xs : List α)
    (each : ∀ x ∈ xs, Echo t [] f x (R x)) : Echo t [] (List.mapM f) xs (List.Forall₂ R xs) :=
  (Echo.list (V := fun _ => []) xs each).visit (List.nil_subset _)

theorem echo_annotations (scope : SymbolId) (as : List AnnotationUse) :
    Echo t [] (annotations scope) as fun _ => True :=
  (echo_each as fun a _ => echo_annotationUse scope a).weaken fun _ _ => trivial

theorem echo_declarator (scope : SymbolId) (d : Declarator) :
    Echo t [] (declarator scope) d (KeptDeclarator d) := by
  obtain ⟨name, dims⟩ := d
  refine (echo_each dims fun e _ => echo_expr scope sizeType e).map
    (m := fun dims => (⟨name, dims⟩ : Declarator)) (fun _ => rfl) fun dims' same => ⟨rfl, ?_⟩
  have length := same.length_eq
  cases dims <;> cases dims' <;> simp_all

/-! Names of types. -/

/-- A type name with its symbol, and what is reported if it has none. -/
def nameOutcome (scope : SymbolId) (u : SymbolTable) (type : NamedType) :
    NamedType × List BindingError :=
  match u.resolve scope type.name with
  | .ok id =>
    if (u.symbol id).kind.isType then (⟨type.name, some id⟩, [])
    else (type, [⟨.notType type.name.text (u.symbol id).kind (u.symbol id).span, type.name.span⟩])
  | .error error => (type, [⟨.lookup error, type.name.span⟩])

/-- The base of a definition with its symbol, and what is reported if it has none of the kind. -/
def baseOutcome (scope : SymbolId) (owner : Ident) (kind : SymbolKind) (u : SymbolTable)
    (type : NamedType) : NamedType × List BindingError :=
  let named := nameOutcome scope u type
  match named.1.target with
  | none => named
  | some id =>
    if u.kind id = kind then named
    else (⟨named.1.name, none⟩, named.2 ++
      [⟨.badBase kind owner.name (u.kind id) named.1.name.text, named.1.name.span⟩])

theorem run_namedType (scope : SymbolId) (type : NamedType) (b : Binding) :
    (namedType scope type).run b = ((nameOutcome scope b.table type).1,
      ⟨b.table, b.errors ++ (nameOutcome scope b.table type).2⟩) := by
  have unfolded : (namedType scope type).run b =
      ((match b.table.resolve scope type.name with
        | .ok id => do
          if (b.table.symbol id).kind.isType then return { type with target := some id }
          report (.notType type.name.text (b.table.symbol id).kind (b.table.symbol id).span)
            type.name.span
          return type
        | .error error => do
          report (.lookup error) type.name.span
          return type : BindM NamedType)).run b := rfl
  rw [unfolded, nameOutcome]
  cases b.table.resolve scope type.name with
  | error error => rfl
  | ok id =>
    simp only
    cases (b.table.symbol id).kind.isType with
    | true =>
      simp only [if_true, List.append_nil]
      rfl
    | false => rfl

theorem run_base (scope : SymbolId) (owner : Ident) (kind : SymbolKind) (type : NamedType)
    (b : Binding) : (base scope owner kind type).run b =
      ((baseOutcome scope owner kind b.table type).1,
        ⟨b.table, b.errors ++ (baseOutcome scope owner kind b.table type).2⟩) := by
  rw [base, run_bind (run_namedType scope type b), baseOutcome]
  generalize nameOutcome scope b.table type = named
  obtain ⟨⟨name, target⟩, es⟩ := named
  cases target with
  | none => rfl
  | some id =>
    change StateT.run (if b.table.kind id = kind then (return (⟨name, some id⟩ : NamedType) :
      BindM NamedType) else do
        report (.badBase kind owner.name (b.table.kind id) name.text) name.span
        return ⟨name, none⟩) _ = _
    by_cases found : b.table.kind id = kind
    · simp only [if_pos found]
      rfl
    · simp only [if_neg found, ← List.append_assoc]
      rfl

theorem nameOutcome_congr {u v : SymbolTable} (same : SameSymbols u v) (scope : SymbolId)
    (type : NamedType) : nameOutcome scope v type = nameOutcome scope u type := by
  have kind (id : SymbolId) : (v.symbol id).kind = (u.symbol id).kind := same.kind id
  have span (id : SymbolId) : (v.symbol id).span = (u.symbol id).span :=
    same.aspect Symbol.span (fun _ => rfl) id
  simp only [nameOutcome, same.resolve, kind, span]

theorem baseOutcome_congr {u v : SymbolTable} (same : SameSymbols u v) (scope : SymbolId)
    (owner : Ident) (kind : SymbolKind) (type : NamedType) :
    baseOutcome scope owner kind v type = baseOutcome scope owner kind u type := by
  simp only [baseOutcome, nameOutcome_congr same, same.kind]

theorem name_nameOutcome (scope : SymbolId) (u : SymbolTable) (type : NamedType) :
    (nameOutcome scope u type).1.name = type.name := by
  rw [nameOutcome]
  split
  · split <;> rfl
  · rfl

/-- A name that refers to a type does so whatever symbol it had; another keeps what it had. -/
theorem nameOutcome_cases (scope : SymbolId) (u : SymbolTable) (type : NamedType) :
    (∃ id, ∀ target, nameOutcome scope u ⟨type.name, target⟩ = (⟨type.name, some id⟩, [])) ∨
      ∃ es, ∀ target, nameOutcome scope u ⟨type.name, target⟩ = (⟨type.name, target⟩, es) := by
  cases found : u.resolve scope type.name with
  | error error =>
    exact .inr ⟨[⟨.lookup error, type.name.span⟩], fun target => by simp only [nameOutcome, found]⟩
  | ok id =>
    cases isType : (u.symbol id).kind.isType with
    | true => exact .inl ⟨id, fun target => by simp only [nameOutcome, found, isType, if_true]⟩
    | false =>
      exact .inr ⟨[⟨.notType type.name.text (u.symbol id).kind (u.symbol id).span,
        type.name.span⟩], fun target => by
          simp only [nameOutcome, found, isType, Bool.false_eq_true, if_false]⟩

theorem nameOutcome_again (scope : SymbolId) (u : SymbolTable) (type : NamedType) :
    nameOutcome scope u (nameOutcome scope u type).1 = nameOutcome scope u type := by
  obtain ⟨name, target⟩ := type
  rcases nameOutcome_cases scope u ⟨name, target⟩ with ⟨id, bound⟩ | ⟨es, failed⟩
  · rw [bound target, bound]
  · rw [failed target, failed]

/-- A base that has no symbol yet gets none that it would not get again. -/
theorem baseOutcome_again (scope : SymbolId) (owner : Ident) (kind : SymbolKind)
    (u : SymbolTable) (name : ScopedName) :
    baseOutcome scope owner kind u (baseOutcome scope owner kind u ⟨name, none⟩).1 =
      baseOutcome scope owner kind u ⟨name, none⟩ := by
  rcases nameOutcome_cases scope u ⟨name, none⟩ with ⟨id, bound⟩ | ⟨es, failed⟩
  · by_cases found : u.kind id = kind
    · simp only [baseOutcome, bound, if_pos found]
    · simp only [baseOutcome, bound, if_neg found]
  · simp only [baseOutcome, failed]

theorem echo_namedType (scope : SymbolId) (type : NamedType) :
    Echo t [] (namedType scope) type fun new => new.name = type.name :=
  Echo.outcome (nameOutcome scope) (run_namedType scope)
    (fun _ _ type same => nameOutcome_congr same.frame.same scope type)
    (fun u => nameOutcome_again scope u type) fun u => name_nameOutcome scope u type

theorem echo_base (scope : SymbolId) (owner : Ident) (kind : SymbolKind) (type : NamedType)
    (formed : type.Formed) : Echo t [] (base scope owner kind) type fun _ => True := by
  obtain ⟨name, target⟩ := type
  have unbound : target = none := formed.unbound
  subst unbound
  exact Echo.outcome (baseOutcome scope owner kind) (run_base scope owner kind)
    (fun _ _ type same => baseOutcome_congr same.frame.same scope owner kind type)
    (fun u => baseOutcome_again scope owner kind u name) fun _ => trivial

/-! Types. -/

theorem echo_enumerator (scope : SymbolId) (v : Enumerator) :
    Echo t [] (enumerator scope) v fun w => w.name = v.name :=
  (echo_annotations scope v.annotations).map (m := fun as => (⟨as, v.name⟩ : Enumerator))
    (fun _ => rfl) fun _ _ => rfl

theorem echo_enumType (scope : SymbolId) (e : EnumType) :
    Echo t [] (enumType scope) e (KeptEnum e) :=
  (echo_each e.enumerators fun v _ => echo_enumerator scope v).map
    (m := fun vs => (⟨e.name, vs, e.span⟩ : EnumType)) (fun _ => rfl)
    fun _ kept => ⟨rfl, map_name_eq kept⟩

theorem echo_bitmaskType (scope : SymbolId) (s : BitmaskType) :
    Echo t [] (bitmaskType scope) s (KeptBitmask s) :=
  (echo_each s.values fun v _ => echo_enumerator scope v).map
    (m := fun vs => (⟨s.name, vs, s.span⟩ : BitmaskType)) (fun _ => rfl)
    fun _ kept => ⟨rfl, map_name_eq kept⟩

theorem echo_bitfield (scope : SymbolId) (f : Bitfield) :
    Echo t [] (bitfield scope) f fun _ => True :=
  (echo_annotations scope f.annotations).pair (fun _ _ => echo_expr scope sizeType f.width)
    (m := fun as width => (⟨as, width, f.type, f.names, f.span⟩ : Bitfield)) (fun _ _ => rfl)
    fun _ _ _ _ => trivial

theorem echo_bitsetType (scope : SymbolId) (s : BitsetType) (formed : s.Formed) :
    Echo t [] (bitsetType scope) s fun s' => s'.name = s.name :=
  (Echo.option fun b mem => echo_base scope s.name .bitset b (formed.base b mem)).pair
    (fun _ _ => echo_each s.bitfields fun f _ => echo_bitfield scope f)
    (m := fun b fs => (⟨s.name, b, fs, s.span⟩ : BitsetType)) (fun _ _ => rfl) fun _ _ _ _ => rfl

theorem echo_caseLabel (scope : SymbolId) (type : Option ConstType) (label : CaseLabel) :
    Echo t [] (caseLabel scope type) label fun _ => True := by
  cases type with
  | none => exact Echo.pure (by rw [caseLabel]; rintro _ _ ⟨⟩) trivial
  | some type =>
    cases label with
    | value e =>
      exact (echo_expr scope type e).map (m := CaseLabel.value) (fun _ => rfl) fun _ _ => trivial
    | default span => exact Echo.pure rfl trivial

/-- What is bound in a union: the discriminant with its annotations, then the cases, whose labels
are values of it. -/
def unionParts (id : SymbolId) (x : List AnnotationUse × TypeSpec × List (UnionCase TypeSpec)) :
    BindM (List AnnotationUse × TypeSpec × List (UnionCase TypeSpec)) := do
  let as ← annotations id x.1
  let type ← typeSpec id x.2.1
  let labels ← table? (·.discriminantType? type)
  return (as, type, ← unionCases id labels x.2.2)

theorem echo_unionParts {id : SymbolId} {type : TypeSpec} {cases : List (UnionCase TypeSpec)}
    (as : List AnnotationUse) (first : Echo t [] (typeSpec id) type (Kept type))
    (second : ∀ labels, Echo t [] (unionCases id labels) cases (KeptCases cases)) :
    Echo t [] (unionParts id) (as, type, cases) fun y =>
      Kept type y.2.1 ∧ KeptCases cases y.2.2 := by
  have labelled (type' : TypeSpec) : Echo t [] (fun cs => do
      let labels ← table? (·.discriminantType? type')
      unionCases id labels cs) cases (KeptCases cases) :=
    Echo.read (fun _ _ same => SymbolTable.discriminantType?_congr same rfl) second fun _ => rfl
  refine (echo_annotations id as).pair (fun _ _ => first.both fun type _ => labelled type)
    (m := fun as x => (as, x.1, x.2)) ?_ ?_
  · intro as x
    simp [unionParts]
  · intro _ _ _ kept
    exact kept

mutual

theorem echo_typeSpec (t : SymbolTable) (scope : SymbolId) : (τ : TypeSpec) → τ.Formed →
    Echo t [] (typeSpec scope) τ (Kept τ)
  | .primitive k, _ => Echo.pure (by rw [typeSpec]) ⟨fun _ _ => rfl, fun _ _ => rfl⟩
  | .named type, _ =>
    (echo_namedType scope type).map (m := TypeSpec.named) (fun _ => by rw [typeSpec])
      fun new name => ⟨fun _ _ => by rw [ScopeBuilder.typeSpec, ScopeBuilder.typeSpec],
        fun _ _ => by simp only [namesBound, TypeSpec.head, name]⟩
  | .sequence element bound, formed => by
    rw [TypeSpec.Formed] at formed
    exact (echo_typeSpec t scope element formed.1).pair (fun _ _ => echo_size? scope bound)
      (m := TypeSpec.sequence) (fun _ _ => by rw [typeSpec]) fun _ _ kept _ =>
        ⟨fun scope b => by simp only [ScopeBuilder.typeSpec, kept.scopes], fun _ _ => rfl⟩
  | .set element bound, formed => by
    rw [TypeSpec.Formed] at formed
    exact (echo_typeSpec t scope element formed.1).pair (fun _ _ => echo_size? scope bound)
      (m := TypeSpec.set) (fun _ _ => by rw [typeSpec]) fun _ _ kept _ =>
        ⟨fun scope b => by simp only [ScopeBuilder.typeSpec, kept.scopes], fun _ _ => rfl⟩
  | .map key value bound, formed => by
    rw [TypeSpec.Formed] at formed
    refine (echo_typeSpec t scope key formed.1).pair
      (fun _ _ => (echo_typeSpec t scope value formed.2.1).both fun _ _ => echo_size? scope bound)
      (m := fun key rest => TypeSpec.map key rest.1 rest.2)
      ?_ ?_
    · intro key rest
      simp [typeSpec]
    · intro _ _ kept rest
      exact ⟨fun scope b => by simp only [ScopeBuilder.typeSpec, kept.scopes, rest.1.scopes],
        fun _ _ => rfl⟩
  | .string bound, _ =>
    (echo_size? scope bound).map (m := TypeSpec.string) (fun _ => by rw [typeSpec])
      fun _ _ => ⟨fun _ _ => by rw [ScopeBuilder.typeSpec, ScopeBuilder.typeSpec], fun _ _ => rfl⟩
  | .wstring bound, _ =>
    (echo_size? scope bound).map (m := TypeSpec.wstring) (fun _ => by rw [typeSpec])
      fun _ _ => ⟨fun _ _ => by rw [ScopeBuilder.typeSpec, ScopeBuilder.typeSpec], fun _ _ => rfl⟩
  | .fixed none, _ => Echo.pure (by rw [typeSpec]) ⟨fun _ _ => rfl, fun _ _ => rfl⟩
  | .fixed (some (digits, scale)), _ =>
    (echo_expr scope sizeType digits).pair (fun _ _ => echo_expr scope sizeType scale)
      (m := fun digits scale => TypeSpec.fixed (some (digits, scale)))
      (fun _ _ => by rw [typeSpec]; rfl) fun _ _ _ _ =>
        ⟨fun _ _ => by rw [ScopeBuilder.typeSpec, ScopeBuilder.typeSpec], fun _ _ => rfl⟩
  | .struct s, formed =>
    (echo_structType t scope s formed).map (m := TypeSpec.struct) (fun _ => by rw [typeSpec])
      fun _ scopes => ⟨scopes, fun _ _ => rfl⟩
  | .union u, formed =>
    (echo_unionType t scope u formed).map (m := TypeSpec.union) (fun _ => by rw [typeSpec])
      fun _ scopes => ⟨scopes, fun _ _ => rfl⟩
  | .enum e, _ =>
    (echo_enumType scope e).map (m := TypeSpec.enum) (fun _ => by rw [typeSpec])
      fun _ kept => ⟨fun scope b => by simp only [ScopeBuilder.typeSpec, kept.scopes],
        fun _ _ => by simp only [namesBound, TypeSpec.head, kept.name]⟩
  | .bitset s, formed => by
    rw [TypeSpec.Formed] at formed
    exact (echo_bitsetType scope s formed).map (m := TypeSpec.bitset) (fun _ => by rw [typeSpec])
      fun _ name => ⟨fun scope b => by simp only [ScopeBuilder.typeSpec, name], fun _ _ => rfl⟩
  | .bitmask s, _ =>
    (echo_bitmaskType scope s).map (m := TypeSpec.bitmask) (fun _ => by rw [typeSpec])
      fun _ kept => ⟨fun scope b => by simp only [ScopeBuilder.typeSpec, kept.scopes],
        fun _ _ => rfl⟩

theorem echo_structType (t : SymbolTable) (scope : SymbolId) : (s : StructType TypeSpec) →
    (TypeSpec.struct s).Formed → Echo t [] (structType scope) s fun s' => ∀ scope b,
      ScopeBuilder.typeSpec scope (.struct s') b = ScopeBuilder.typeSpec scope (.struct s) b
  | ⟨name, b, fields, span⟩, formed => by
    rw [TypeSpec.Formed] at formed
    refine (Echo.option fun b mem => echo_base scope name .struct b (formed.2.1 b mem)).pair
      (fun _ _ => Echo.inScope (G := members) name scope
        (echo_members t _ fields formed.2.2) fun _ => rfl)
      (m := fun b fields => (⟨name, b, fields, span⟩ : StructType TypeSpec))
      (fun _ _ => by simp [structType]) fun _ _ _ kept scope b => ?_
    simp only [ScopeBuilder.typeSpec, kept _ _]

theorem echo_members (t : SymbolTable) (scope : SymbolId) : (ms : List (Member TypeSpec)) →
    membersFormed ms → Echo t [] (members scope) ms (KeptMembers ms)
  | [], _ => Echo.pure (by rw [members]) fun _ _ => rfl
  | ⟨as, type, ds, span⟩ :: rest, formed => by
    rw [membersFormed] at formed
    refine (echo_annotations scope as).pair
      (fun _ _ => (echo_typeSpec t scope type formed.1.2.1).both
        fun _ _ => (echo_each ds fun d _ => echo_declarator scope d).both
          fun _ _ => echo_members t scope rest formed.2)
      (m := fun as x => (⟨as, x.1, x.2.1, span⟩ : Member TypeSpec) :: x.2.2)
      ?_ ?_
    · intro as x
      simp [members]
    · intro _ _ _ kept scope b
      simp only [ScopeBuilder.members, kept.1.scopes, kept.2.2 _ _]

theorem echo_unionType (t : SymbolTable) (scope : SymbolId) : (u : UnionType TypeSpec) →
    (TypeSpec.union u).Formed → Echo t [] (unionType scope) u fun u' => ∀ scope b,
      ScopeBuilder.typeSpec scope (.union u') b = ScopeBuilder.typeSpec scope (.union u) b
  | ⟨name, ⟨as, type, switchSpan⟩, cases, span⟩, formed => by
    rw [TypeSpec.Formed] at formed
    refine (Echo.inScope (G := unionParts) name scope (echo_unionParts as
      (echo_typeSpec t _ type formed.2.2.1)
      fun labels => echo_unionCases t _ labels cases formed.2.2.2.2) fun _ => rfl).map
      (m := fun x => (⟨name, ⟨x.1, x.2.1, switchSpan⟩, x.2.2, span⟩ : UnionType TypeSpec)) ?_ ?_
    · intro x
      simp [unionType, unionParts]
    · intro _ kept scope b
      simp only [ScopeBuilder.typeSpec, kept.1.scopes, kept.2 _ _]

theorem echo_unionCases (t : SymbolTable) (scope : SymbolId) (labelType : Option ConstType) :
    (cs : List (UnionCase TypeSpec)) → casesFormed cs →
    Echo t [] (unionCases scope labelType) cs (KeptCases cs)
  | [], _ => Echo.pure (by rw [unionCases]) fun _ _ => rfl
  | ⟨labels, as, type, d, span⟩ :: rest, formed => by
    rw [casesFormed] at formed
    refine (echo_each labels fun label _ => echo_caseLabel scope labelType label).pair
      (fun _ _ => (echo_annotations scope as).both
        fun _ _ => (echo_typeSpec t scope type formed.1.2.2.2.1).both
          fun _ _ => (echo_declarator scope d).both
            fun _ _ => echo_unionCases t scope labelType rest formed.2)
      (m := fun labels x =>
        (⟨labels, x.1, x.2.1, x.2.2.1, span⟩ : UnionCase TypeSpec) :: x.2.2.2)
      ?_ ?_
    · intro labels x
      simp [unionCases]
    · intro _ _ _ kept scope b
      simp only [ScopeBuilder.unionCases, kept.2.1.scopes, kept.2.2.2 _ _]

end

end Idl.Binding
