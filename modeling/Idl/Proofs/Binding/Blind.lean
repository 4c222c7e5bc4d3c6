import Idl.Proofs.Binding.EchoType
import Idl.Proofs.Scope.Forget

/-!
Steps of binding that are blind to a place: over a table that forgets the place they do the same.
A type without an identifier there is bound by such a step, and then has none either. Main
statement: `blind_typeSpec`.
-/

set_option autoImplicit false

namespace Idl

namespace Binding

variable {place : Nat} {α β : Type}

/-- Nothing is defined at the place. -/
def forget (place : Nat) (b : Binding) : Binding := { b with table := b.table.forget place }

/-- A step does the same over a table that forgets the place, and `Q` holds of what it returns. -/
def Blind (place : Nat) (p : BindM α) (Q : α → Prop) : Prop :=
  ∀ b, b.table.AliasesAvoid place →
    p.run (b.forget place) = ((p.run b).1, (p.run b).2.forget place) ∧
      (p.run b).2.table.AliasesAvoid place ∧ Q (p.run b).1

namespace Blind

variable {p : BindM α} {k : α → BindM β} {Q : α → Prop} {R : β → Prop}

theorem pure {a : α} (holds : Q a) : Blind place (Pure.pure a) Q :=
  fun _ aliases => ⟨rfl, aliases, holds⟩

theorem bind (first : Blind place p Q) (second : ∀ a, Q a → Blind place (k a) R) :
    Blind place (p >>= k) R := by
  intro b aliases
  obtain ⟨same, aliases, holds⟩ := first b aliases
  obtain ⟨same', aliases', holds'⟩ := second _ holds _ aliases
  refine ⟨?_, aliases', holds'⟩
  rw [run_bind same, same']
  rfl

theorem weaken (blind : Blind place p Q) : Blind place p fun _ => True := fun b aliases =>
  ⟨(blind b aliases).1, (blind b aliases).2.1, trivial⟩

/-- What was looked up is the same without the place. -/
theorem look {f : SymbolTable → α}
    (same : ∀ t, t.AliasesAvoid place → f (t.forget place) = f t) :
    Blind place (table? f) fun _ => True := by
  intro b aliases
  refine ⟨?_, aliases, trivial⟩
  have looked (b : Binding) : (table? f).run b = (f b.table, b) := rfl
  rw [looked, looked]
  exact congrArg (·, b.forget place) (same b.table aliases)

/-- A step whose outcome is known for each table. -/
theorem outcome {f : SymbolTable → α × List BindingError}
    (run : ∀ b, p.run b = ((f b.table).1, ⟨b.table, b.errors ++ (f b.table).2⟩))
    (same : ∀ t : SymbolTable, f (t.forget place) = f t) (holds : ∀ t, Q (f t).1) :
    Blind place p Q := by
  intro b aliases
  rw [run, run]
  refine ⟨?_, aliases, holds b.table⟩
  simp only [forget, same]

theorem changeTable {f : SymbolTable → SymbolTable}
    (same : ∀ t : SymbolTable, f (t.forget place) = (f t).forget place)
    (aliases : ∀ t : SymbolTable, t.AliasesAvoid place → (f t).AliasesAvoid place) :
    Blind place (modify fun b : Binding => { b with table := f b.table }) fun _ => True := by
  intro b avoid
  refine ⟨?_, aliases b.table avoid, trivial⟩
  have run (b : Binding) : (modify fun b => { b with table := f b.table } : BindM Unit).run b =
      ((), ⟨f b.table, b.errors⟩) := rfl
  rw [run, run]
  exact congrArg (fun t => ((), (⟨t, b.errors⟩ : Binding))) (same b.table)

theorem mapM {f : α → BindM β} {xs : List α} (each : ∀ x ∈ xs, Blind place (f x) R) :
    Blind place (xs.mapM f) fun ys => ∀ y ∈ ys, R y := by
  induction xs with
  | nil => exact pure (by simp)
  | cons x xs ih =>
    rw [List.forall_mem_cons] at each
    rw [List.mapM_cons]
    exact each.1.bind fun _ first => (ih each.2).bind fun _ rest =>
      pure (List.forall_mem_cons.mpr ⟨first, rest⟩)

theorem mapOption {f : α → BindM β} (each : ∀ x, Blind place (f x) R) (x : Option α) :
    Blind place (x.mapM f) fun _ => True := by
  cases x with
  | none => exact pure trivial
  | some x => exact (each x).bind fun _ _ => pure trivial

end Blind

section

variable (scope : SymbolId)

/-! Expressions, annotations and declarators. -/

theorem blind_evaluated (type : ConstType) (e : ConstExpr) :
    Blind place (evaluated scope type e) fun _ => True := by
  intro b aliases
  have same : evaluate (b.forget place).table scope type e = evaluate b.table scope type e :=
    evaluate_congr_symbols b.table.sameSymbols_forget (fun _ => rfl) scope type e
  rw [run_evaluated, run_evaluated, exprOutcome, exprOutcome, same]
  exact ⟨rfl, aliases, trivial⟩

theorem blind_expr (type : ConstType) (e : ConstExpr) :
    Blind place (expr scope type e) fun _ => True :=
  (blind_evaluated scope type e).bind fun _ _ => .pure trivial

theorem blind_size? (e : Option ConstExpr) : Blind place (size? scope e) fun _ => True :=
  .mapOption (blind_expr scope sizeType) e

theorem blind_valueParam (type : ConstType) (ps : List (Ident × ConstExpr)) :
    Blind place (valueParam scope type ps) fun _ => True := by
  induction ps with
  | nil => exact .pure trivial
  | cons p rest ih =>
    rw [valueParam]
    split
    · exact (blind_expr scope type p.2).bind fun _ _ => .pure trivial
    · exact ih.bind fun _ _ => .pure trivial

theorem blind_annotationUse (a : AnnotationUse) :
    Blind place (annotationUse scope a) fun _ => True := by
  obtain ⟨name, args, span⟩ := a
  rw [annotationUse]
  split
  · exact .pure trivial
  · cases args with
    | none => exact .pure trivial
    | single e => exact (blind_expr scope _ e).bind fun _ _ => .pure trivial
    | named params => exact (blind_valueParam scope _ params).bind fun _ _ => .pure trivial

theorem blind_annotations (as : List AnnotationUse) :
    Blind place (annotations scope as) fun _ => True :=
  (Blind.mapM fun a _ => blind_annotationUse scope a).weaken

theorem blind_declarator (d : Declarator) :
    Blind place (declarator scope d) fun e => e.name = d.name :=
  (Blind.mapM (R := fun _ => True) fun e _ => blind_expr scope sizeType e).bind fun _ _ =>
    .pure rfl

/-! Names of types. -/

theorem blind_scopeOf {name : Ident} (avoids : name.Avoids place) :
    Blind place (scopeOf name scope) fun _ => True :=
  (Blind.look fun t _ => t.definedAt?_forget avoids).bind fun _ _ => .pure trivial

theorem blind_namedType (type : NamedType) : Blind place (namedType scope type) fun _ => True :=
  .outcome (f := (nameOutcome scope · type)) (run_namedType scope type)
    (fun t => nameOutcome_congr t.sameSymbols_forget scope type) fun _ => trivial

theorem blind_base (owner : Ident) (kind : SymbolKind) (type : NamedType) :
    Blind place (base scope owner kind type) fun _ => True :=
  .outcome (f := (baseOutcome scope owner kind · type)) (run_base scope owner kind type)
    (fun t => baseOutcome_congr t.sameSymbols_forget scope owner kind type) fun _ => trivial

/-! Types. -/

theorem blind_enumerators {values : List Enumerator}
    (avoids : ∀ v ∈ values, v.name.Avoids place) :
    Blind place (values.mapM (enumerator scope)) fun values => ∀ v ∈ values, v.name.Avoids place :=
  .mapM fun v mem => (blind_annotations scope v.annotations).bind fun _ _ => .pure (avoids v mem)

theorem blind_enumType {t : EnumType}
    (named : NamedBy (Ident.Avoids place) (listing t.name .enum t.enumerators)) :
    Blind place (enumType scope t) fun t =>
      NamedBy (Ident.Avoids place) (listing t.name .enum t.enumerators) := by
  obtain ⟨name, values⟩ := namedBy_listing.mp named
  exact (blind_enumerators scope values).bind fun _ values =>
    .pure (namedBy_listing.mpr ⟨name, values⟩)

theorem blind_bitmaskType {t : BitmaskType}
    (named : NamedBy (Ident.Avoids place) (listing t.name .bitmask t.values)) :
    Blind place (bitmaskType scope t) fun t =>
      NamedBy (Ident.Avoids place) (listing t.name .bitmask t.values) := by
  obtain ⟨name, values⟩ := namedBy_listing.mp named
  exact (blind_enumerators scope values).bind fun _ values =>
    .pure (namedBy_listing.mpr ⟨name, values⟩)

theorem blind_bitfield (f : Bitfield) : Blind place (bitfield scope f) fun _ => True :=
  (blind_annotations scope f.annotations).bind fun _ _ =>
    (blind_expr scope sizeType f.width).bind fun _ _ => .pure trivial

theorem blind_bitsetType {t : BitsetType} (avoids : t.name.Avoids place) :
    Blind place (bitsetType scope t) fun t => t.name.Avoids place :=
  (Blind.mapOption (blind_base scope t.name .bitset) t.base).bind fun _ _ =>
    (Blind.mapM (R := fun _ => True) fun f _ => blind_bitfield scope f).bind fun _ _ =>
    .pure avoids

theorem blind_caseLabel (type : Option ConstType) (label : CaseLabel) :
    Blind place (caseLabel scope type label) fun _ => True := by
  cases type with
  | none => exact .pure trivial
  | some type =>
    cases label with
    | value e => exact (blind_expr scope type e).bind fun _ _ => .pure trivial
    | default span => exact .pure trivial

end

mutual

theorem blind_typeSpec (scope : SymbolId) : (τ : TypeSpec) →
    NamedBy (Ident.Avoids place) τ.declarations →
    Blind place (typeSpec scope τ) fun τ => NamedBy (Ident.Avoids place) τ.declarations
  | .primitive k, named => by
    rw [typeSpec]
    exact .pure named
  | .named type, named => by
    rw [TypeSpec.declarations] at named
    rw [typeSpec]
    exact (blind_namedType scope type).bind fun _ _ => .pure (by rwa [TypeSpec.declarations])
  | .sequence element bound, named => by
    rw [TypeSpec.declarations] at named
    rw [typeSpec]
    exact (blind_typeSpec scope element named).bind fun _ named =>
      (blind_size? scope bound).bind fun _ _ => .pure (by rwa [TypeSpec.declarations])
  | .set element bound, named => by
    rw [TypeSpec.declarations] at named
    rw [typeSpec]
    exact (blind_typeSpec scope element named).bind fun _ named =>
      (blind_size? scope bound).bind fun _ _ => .pure (by rwa [TypeSpec.declarations])
  | .map key value bound, named => by
    rw [TypeSpec.declarations, namedBy_append] at named
    rw [typeSpec]
    refine (blind_typeSpec scope key named.1).bind fun _ key =>
      (blind_typeSpec scope value named.2).bind fun _ value =>
      (blind_size? scope bound).bind fun _ _ => .pure ?_
    rw [TypeSpec.declarations]
    exact namedBy_append.mpr ⟨key, value⟩
  | .string bound, named => by
    rw [TypeSpec.declarations] at named
    rw [typeSpec]
    exact (blind_size? scope bound).bind fun _ _ => .pure (by rwa [TypeSpec.declarations])
  | .wstring bound, named => by
    rw [TypeSpec.declarations] at named
    rw [typeSpec]
    exact (blind_size? scope bound).bind fun _ _ => .pure (by rwa [TypeSpec.declarations])
  | .fixed none, named => by
    rw [typeSpec]
    exact .pure named
  | .fixed (some (digits, scale)), named => by
    rw [TypeSpec.declarations] at named
    rw [typeSpec]
    exact (blind_expr scope sizeType digits).bind fun _ _ =>
      (blind_expr scope sizeType scale).bind fun _ _ => .pure (by rwa [TypeSpec.declarations])
  | .struct t, named => by
    rw [typeSpec]
    exact (blind_structType scope t named).bind fun _ named => .pure named
  | .union t, named => by
    rw [typeSpec]
    exact (blind_unionType scope t named).bind fun _ named => .pure named
  | .enum t, named => by
    rw [TypeSpec.declarations] at named
    rw [typeSpec]
    exact (blind_enumType scope named).bind fun _ named =>
      .pure (by rwa [TypeSpec.declarations])
  | .bitset t, named => by
    rw [TypeSpec.declarations, namedBy_cons] at named
    rw [typeSpec]
    refine (blind_bitsetType scope named.1).bind fun _ name => .pure ?_
    rw [TypeSpec.declarations]
    exact namedBy_cons.mpr ⟨name, named.2⟩
  | .bitmask t, named => by
    rw [TypeSpec.declarations] at named
    rw [typeSpec]
    exact (blind_bitmaskType scope named).bind fun _ named =>
      .pure (by rwa [TypeSpec.declarations])

theorem blind_structType (scope : SymbolId) : (t : StructType TypeSpec) →
    NamedBy (Ident.Avoids place) (TypeSpec.struct t).declarations →
    Blind place (structType scope t) fun t =>
      NamedBy (Ident.Avoids place) (TypeSpec.struct t).declarations
  | ⟨name, b, fields, span⟩, named => by
    rw [TypeSpec.declarations, namedBy_cons] at named
    rw [structType]
    refine (Blind.mapOption (blind_base scope name .struct) b).bind fun _ _ =>
      (blind_scopeOf scope named.1).bind fun id _ =>
      (blind_members id fields named.2).bind fun _ fields => .pure ?_
    rw [TypeSpec.declarations]
    exact namedBy_cons.mpr ⟨named.1, fields⟩

theorem blind_members (scope : SymbolId) : (ms : List (Member TypeSpec)) →
    NamedBy (Ident.Avoids place) (memberDeclarations ms) →
    Blind place (members scope ms) fun ms => NamedBy (Ident.Avoids place) (memberDeclarations ms)
  | [], named => by
    rw [members]
    exact .pure named
  | ⟨as, type, ds, span⟩ :: rest, named => by
    rw [memberDeclarations, namedBy_append] at named
    rw [members]
    refine (blind_annotations scope as).bind fun _ _ =>
      (blind_typeSpec scope type named.1).bind fun _ τ =>
      (Blind.mapM (R := fun _ => True) fun d _ => (blind_declarator scope d).weaken).bind fun _ _ =>
      (blind_members scope rest named.2).bind fun _ rest => .pure ?_
    rw [memberDeclarations]
    exact namedBy_append.mpr ⟨τ, rest⟩

theorem blind_unionType (scope : SymbolId) : (t : UnionType TypeSpec) →
    NamedBy (Ident.Avoids place) (TypeSpec.union t).declarations →
    Blind place (unionType scope t) fun t =>
      NamedBy (Ident.Avoids place) (TypeSpec.union t).declarations
  | ⟨name, ⟨as, type, switchSpan⟩, cases, span⟩, named => by
    rw [TypeSpec.declarations, namedBy_cons, namedBy_append] at named
    rw [unionType]
    refine (blind_scopeOf scope named.1).bind fun id _ =>
      (blind_annotations id as).bind fun _ _ =>
      (blind_typeSpec id type named.2.1).bind fun _ τ =>
      (Blind.look fun _ aliases => SymbolTable.discriminantType?_forget aliases τ).bind
      fun labels _ => (blind_unionCases id labels cases named.2.2).bind fun _ cases => .pure ?_
    rw [TypeSpec.declarations]
    exact namedBy_cons.mpr ⟨named.1, namedBy_append.mpr ⟨τ, cases⟩⟩

theorem blind_unionCases (scope : SymbolId) (labelType : Option ConstType) :
    (cs : List (UnionCase TypeSpec)) → NamedBy (Ident.Avoids place) (caseDeclarations cs) →
    Blind place (unionCases scope labelType cs) fun cs =>
      NamedBy (Ident.Avoids place) (caseDeclarations cs)
  | [], named => by
    rw [unionCases]
    exact .pure named
  | ⟨labels, as, type, d, span⟩ :: rest, named => by
    rw [caseDeclarations, namedBy_append] at named
    rw [unionCases]
    refine (Blind.mapM (R := fun _ => True) fun l _ => blind_caseLabel scope labelType l).bind
      fun _ _ => (blind_annotations scope as).bind fun _ _ =>
      (blind_typeSpec scope type named.1).bind fun _ τ =>
      (blind_declarator scope d).bind fun _ _ =>
      (blind_unionCases scope labelType rest named.2).bind fun _ rest => .pure ?_
    rw [caseDeclarations]
    exact namedBy_append.mpr ⟨τ, rest⟩

end

end Binding

end Idl
