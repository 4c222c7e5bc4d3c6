import Idl.Proofs.Token.Fine
import Idl.Syntax.Definition

/-!
Trees as the grammar forms them: names can stand as names, numbers are within their limits, what
the grammar repeats at least once is there, and nothing is bound or evaluated yet.
-/

set_option autoImplicit false

namespace Idl

/-! Names and expressions. -/

def Ident.Formed (i : Ident) : Prop := IsIdent i.name

def ScopedName.Formed (n : ScopedName) : Prop := ∀ i ∈ n.segments, i.Formed

/-- The name is a keyword alone. -/
def ScopedName.IsKeyword (n : ScopedName) : Prop :=
  ∃ word : Keyword, n.absolute = false ∧ n.first.name = word.text ∧ n.more = []

def Literal.Formed : Literal → Prop
  | .integer v _ => v < UInt64.size
  | .float x => x.negative = false ∧ x.isNaN = false
  | .fixed x => x.negative = false ∧ x.isNaN = false
  | _ => True

def ConstExpr.Formed : ConstExpr → Prop
  | .binary _ left right _ value => left.Formed ∧ right.Formed ∧ value = none
  | .unary _ operand _ value => operand.Formed ∧ value = none
  | .literal l _ value => l.Formed ∧ value = none
  | .name n _ value => n.Formed ∧ value = none

/-! Annotations and declarators. -/

def AnnotationArgs.Formed : AnnotationArgs → Prop
  | .none => True
  | .single value => value.Formed
  | .named params => params ≠ [] ∧ ∀ p ∈ params, p.1.Formed ∧ p.2.Formed

structure AnnotationUse.Formed (a : AnnotationUse) : Prop where
  name : a.name.IsKeyword ∨ a.name.Formed
  args : a.args.Formed

structure Declarator.Formed (d : Declarator) : Prop where
  name : d.name.Formed
  dims : ∀ e ∈ d.dims, e.Formed

structure Enumerator.Formed (v : Enumerator) : Prop where
  annotations : ∀ a ∈ v.annotations, a.Formed
  name : v.name.Formed

/-! Types. -/

structure NamedType.Formed (t : NamedType) : Prop where
  name : t.name.Formed
  unbound : t.target = none

structure EnumType.Formed (t : EnumType) : Prop where
  name : t.name.Formed
  nonempty : t.enumerators ≠ []
  enumerators : ∀ v ∈ t.enumerators, v.Formed

structure BitmaskType.Formed (t : BitmaskType) : Prop where
  name : t.name.Formed
  nonempty : t.values ≠ []
  values : ∀ v ∈ t.values, v.Formed

structure Bitfield.Formed (f : Bitfield) : Prop where
  annotations : ∀ a ∈ f.annotations, a.Formed
  width : f.width.Formed
  type : ∀ k ∈ f.type, k.bitWidth?.isSome = true
  names : ∀ n ∈ f.names, n.Formed

structure BitsetType.Formed (t : BitsetType) : Prop where
  name : t.name.Formed
  base : ∀ b ∈ t.base, b.Formed
  bitfields : ∀ f ∈ t.bitfields, f.Formed

def CaseLabel.Formed : CaseLabel → Prop
  | .value e => e.Formed
  | .default _ => True

mutual

def TypeSpec.Formed : TypeSpec → Prop
  | .primitive _ => True
  | .named t => t.Formed
  | .sequence element b => element.Formed ∧ ∀ e ∈ b, e.Formed
  | .set element b => element.Formed ∧ ∀ e ∈ b, e.Formed
  | .map key value b => key.Formed ∧ value.Formed ∧ ∀ e ∈ b, e.Formed
  | .string b => ∀ e ∈ b, e.Formed
  | .wstring b => ∀ e ∈ b, e.Formed
  | .fixed none => True
  | .fixed (some (digits, scale)) => digits.Formed ∧ scale.Formed
  | .struct ⟨name, base, fields, _⟩ =>
    name.Formed ∧ (∀ b ∈ base, b.Formed) ∧ membersFormed fields
  | .union ⟨name, ⟨as, type, _⟩, cases, _⟩ =>
    name.Formed ∧ (∀ a ∈ as, a.Formed) ∧ type.Formed ∧ cases ≠ [] ∧ casesFormed cases
  | .enum t => t.Formed
  | .bitset t => t.Formed
  | .bitmask t => t.Formed

def membersFormed : List (Member TypeSpec) → Prop
  | [] => True
  | ⟨as, type, ds, _⟩ :: rest =>
    ((∀ a ∈ as, a.Formed) ∧ type.Formed ∧ ds ≠ [] ∧ ∀ d ∈ ds, d.Formed) ∧ membersFormed rest

def casesFormed : List (UnionCase TypeSpec) → Prop
  | [] => True
  | ⟨labels, as, type, d, _⟩ :: rest =>
    (labels ≠ [] ∧ (∀ l ∈ labels, l.Formed) ∧ (∀ a ∈ as, a.Formed) ∧ type.Formed ∧ d.Formed) ∧
      casesFormed rest

end

structure Member.Formed (m : Member TypeSpec) : Prop where
  annotations : ∀ a ∈ m.annotations, a.Formed
  type : m.type.Formed
  nonempty : m.declarators ≠ []
  declarators : ∀ d ∈ m.declarators, d.Formed

structure UnionCase.Formed (c : UnionCase TypeSpec) : Prop where
  nonempty : c.labels ≠ []
  labels : ∀ l ∈ c.labels, l.Formed
  annotations : ∀ a ∈ c.annotations, a.Formed
  type : c.type.Formed
  declarator : c.declarator.Formed

theorem membersFormed_iff (ms : List (Member TypeSpec)) :
    membersFormed ms ↔ ∀ m ∈ ms, m.Formed := by
  induction ms with
  | nil => simp [membersFormed]
  | cons m ms ih =>
    obtain ⟨as, type, ds, span⟩ := m
    rw [membersFormed, ih, List.forall_mem_cons]
    exact and_congr_left fun _ =>
      ⟨fun ⟨a, t, n, d⟩ => ⟨a, t, n, d⟩, fun ⟨a, t, n, d⟩ => ⟨a, t, n, d⟩⟩

theorem casesFormed_iff (cs : List (UnionCase TypeSpec)) :
    casesFormed cs ↔ ∀ c ∈ cs, c.Formed := by
  induction cs with
  | nil => simp [casesFormed]
  | cons c cs ih =>
    obtain ⟨labels, as, type, d, span⟩ := c
    rw [casesFormed, ih, List.forall_mem_cons]
    exact and_congr_left fun _ =>
      ⟨fun ⟨n, l, a, t, d⟩ => ⟨n, l, a, t, d⟩, fun ⟨n, l, a, t, d⟩ => ⟨n, l, a, t, d⟩⟩

/-- The type begins with the word of a definition. -/
def TypeSpec.isConstructed : TypeSpec → Bool
  | .struct _ | .union _ | .enum _ | .bitset _ | .bitmask _ => true
  | _ => false

/-! Definitions. -/

structure ConstDecl.Formed (d : ConstDecl) : Prop where
  type : d.type.Formed
  name : d.name.Formed
  value : d.value.Formed

structure Typedef.Formed (d : Typedef) : Prop where
  type : d.type.Formed
  nonempty : d.declarators ≠ []
  declarators : ∀ x ∈ d.declarators, x.Formed

structure ExceptionDecl.Formed (d : ExceptionDecl) : Prop where
  name : d.name.Formed
  members : ∀ m ∈ d.members, m.Formed

/-- The words that may stand in front of a declaration. -/
def ForwardKind.qualifiers : ForwardKind → List (Option Qualifier)
  | .struct | .union | .component => [none]
  | .interface => [none, some .abstractType, some .localType]
  | .value | .event => [none, some .abstractType, some .customType]

structure ForwardDecl.Formed (d : ForwardDecl) : Prop where
  name : d.name.Formed
  qualifier : d.qualifier ∈ d.kind.qualifiers

structure Param.Formed (p : Param) : Prop where
  annotations : ∀ a ∈ p.annotations, a.Formed
  type : p.type.Formed
  name : p.name.Formed

structure Attribute.Formed (a : Attribute) : Prop where
  annotations : ∀ u ∈ a.annotations, u.Formed
  type : a.type.Formed
  nonempty : a.names ≠ []
  names : ∀ n ∈ a.names, n.Formed
  getRaises : ∀ n ∈ a.getRaises, n.Formed
  setRaises : ∀ n ∈ a.setRaises, n.Formed
  readonly : a.readonly = true → a.setRaises = []

structure Operation.Formed (o : Operation) : Prop where
  annotations : ∀ a ∈ o.annotations, a.Formed
  result : ∀ τ ∈ o.result, τ.Formed
  plain : o.oneway = false → ∀ τ ∈ o.result, τ.isConstructed = false
  name : o.name.Formed
  params : ∀ p ∈ o.params, p.Formed
  raises : ∀ n ∈ o.raises, n.Formed

structure Initializer.Formed (i : Initializer) : Prop where
  name : i.name.Formed
  params : ∀ p ∈ i.params, p.Formed
  raises : ∀ n ∈ i.raises, n.Formed

structure Port.Formed (p : Port) : Prop where
  type : p.type.Formed
  name : p.name.Formed

/-- What stands before the body of a value or event type. -/
structure ValueType.Headed (v : ValueType Definition) : Prop where
  name : v.name.Formed
  qualifier : v.qualifier ∈ ForwardKind.value.qualifiers
  truncatable : v.truncatable = true → v.bases ≠ []
  bases : ∀ n ∈ v.bases, n.Formed
  supports : ∀ n ∈ v.supports, n.Formed

structure ValueBox.Formed (d : ValueBox) : Prop where
  name : d.name.Formed
  type : d.type.Formed

structure AnnotationMember.Formed (m : AnnotationMember) : Prop where
  type : m.type.Formed
  plain : m.type.isConstructed = false
  name : m.name.Formed
  default : ∀ e ∈ m.default, e.Formed

/-- The definition may also stand where exports or annotation members do. -/
def DefinitionKind.isInner {δ : Type} : DefinitionKind δ → Bool
  | .struct _ | .union _ | .enum _ | .bitset _ | .bitmask _ | .typedef _ | .native _ | .const _
  | .exception _ | .typeId _ | .typePrefix _ => true
  | .forward d => d.kind == .struct || d.kind == .union
  | _ => false

mutual

def Definition.Formed : Definition → Prop
  | ⟨as, kind, _⟩ => (∀ a ∈ as, a.Formed) ∧ kindFormed kind

def kindFormed : DefinitionKind Definition → Prop
  | .module ⟨name, ds⟩ => name.Formed ∧ allFormed ds
  | .struct t => (TypeSpec.struct t).Formed
  | .union t => (TypeSpec.union t).Formed
  | .enum t => t.Formed
  | .bitset t => t.Formed
  | .bitmask t => t.Formed
  | .typedef d => d.Formed
  | .const d => d.Formed
  | .exception d => d.Formed
  | .native name => name.Formed
  | .forward d => d.Formed
  | .interface ⟨name, q, bases, body⟩ =>
    name.Formed ∧ q ∈ ForwardKind.interface.qualifiers ∧ (∀ n ∈ bases, n.Formed) ∧
      exportsFormed body
  | .value ⟨name, q, truncatable, bases, supports, body⟩ =>
    ValueType.Headed ⟨name, q, truncatable, bases, supports, []⟩ ∧ exportsFormed body
  | .event ⟨name, q, truncatable, bases, supports, body⟩ =>
    ValueType.Headed ⟨name, q, truncatable, bases, supports, []⟩ ∧ exportsFormed body
  | .valueBox d => d.Formed
  | .component ⟨name, base, supports, body⟩ =>
    (name.Formed ∧ (∀ n ∈ base, n.Formed) ∧ ∀ n ∈ supports, n.Formed) ∧ exportsFormed body
  | .home ⟨name, base, supports, manages, key, body⟩ =>
    (name.Formed ∧ (∀ n ∈ base, n.Formed) ∧ (∀ n ∈ supports, n.Formed) ∧ manages.Formed ∧
      ∀ n ∈ key, n.Formed) ∧ exportsFormed body
  | .typeId d => d.target.Formed
  | .typePrefix d => d.target.Formed
  | .annotationDecl ⟨name, ms, ds⟩ =>
    (name.Formed ∧ (∀ m ∈ ms, m.Formed) ∧ ∀ d ∈ ds, d.annotations = [] ∧ d.kind.isInner = true) ∧
      allFormed ds

def allFormed : List Definition → Prop
  | [] => True
  | d :: ds => d.Formed ∧ allFormed ds

def exportsFormed : List (Export Definition) → Prop
  | [] => True
  | .definition d :: rest => (d.Formed ∧ d.kind.isInner = true) ∧ exportsFormed rest
  | .attribute a :: rest => a.Formed ∧ exportsFormed rest
  | .operation o :: rest => o.Formed ∧ exportsFormed rest
  | .stateMember m :: rest => m.member.Formed ∧ exportsFormed rest
  | .initializer i :: rest => i.Formed ∧ exportsFormed rest
  | .port p :: rest => p.Formed ∧ exportsFormed rest

end

def Export.Formed : Export Definition → Prop
  | .definition d => d.Formed ∧ d.kind.isInner = true
  | .attribute a => a.Formed
  | .operation o => o.Formed
  | .stateMember m => m.member.Formed
  | .initializer i => i.Formed
  | .port p => p.Formed

theorem allFormed_iff (ds : List Definition) : allFormed ds ↔ ∀ d ∈ ds, d.Formed := by
  induction ds with
  | nil => simp [allFormed]
  | cons d ds ih => rw [allFormed, ih, List.forall_mem_cons]

theorem exportsFormed_iff (es : List (Export Definition)) :
    exportsFormed es ↔ ∀ e ∈ es, e.Formed := by
  induction es with
  | nil => simp [exportsFormed]
  | cons e es ih => cases e <;> simp only [exportsFormed, ih, List.forall_mem_cons, Export.Formed]

def ImportTarget.Formed : ImportTarget → Prop
  | .scope name => name.Formed
  | .file _ => True

structure Specification.Formed (s : Specification) : Prop where
  imports : ∀ i ∈ s.imports, i.target.Formed
  definitions : ∀ d ∈ s.definitions, d.Formed

end Idl
