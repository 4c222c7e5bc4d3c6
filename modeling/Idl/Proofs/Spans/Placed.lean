import Idl.Proofs.Scope.Moves

/-!
Trees whose places are good ones. Only the places that an analysis points at count: those of
declared names, type names, expressions, annotations, discriminants and defaults. Main statement:
`namedBy_allDeclarations`.
-/

set_option autoImplicit false

namespace Idl

section

variable (P : Span → Prop)

/-! Expressions, annotations and declarators. -/

def Ident.Placed (i : Ident) : Prop := P i.span

def ConstExpr.Placed : ConstExpr → Prop
  | .binary _ left right span _ => left.Placed ∧ right.Placed ∧ P span
  | .unary _ operand span _ => operand.Placed ∧ P span
  | .literal _ span _ => P span
  | .name _ span _ => P span

def AnnotationArgs.Placed : AnnotationArgs → Prop
  | .none => True
  | .single value => value.Placed P
  | .named params => ∀ p ∈ params, p.2.Placed P

structure AnnotationUse.Placed (a : AnnotationUse) : Prop where
  args : a.args.Placed P
  span : P a.span

structure Declarator.Placed (d : Declarator) : Prop where
  name : d.name.Placed P
  dims : ∀ e ∈ d.dims, e.Placed P

structure Enumerator.Placed (v : Enumerator) : Prop where
  annotations : ∀ a ∈ v.annotations, a.Placed P
  name : v.name.Placed P

/-! Types. -/

def NamedType.Placed (t : NamedType) : Prop := P t.name.span

structure EnumType.Placed (t : EnumType) : Prop where
  name : t.name.Placed P
  enumerators : ∀ v ∈ t.enumerators, v.Placed P

structure BitmaskType.Placed (t : BitmaskType) : Prop where
  name : t.name.Placed P
  values : ∀ v ∈ t.values, v.Placed P

structure Bitfield.Placed (f : Bitfield) : Prop where
  annotations : ∀ a ∈ f.annotations, a.Placed P
  width : f.width.Placed P
  names : ∀ n ∈ f.names, n.Placed P

structure BitsetType.Placed (t : BitsetType) : Prop where
  name : t.name.Placed P
  base : ∀ b ∈ t.base, b.Placed P
  bitfields : ∀ f ∈ t.bitfields, f.Placed P

def CaseLabel.Placed : CaseLabel → Prop
  | .value e => e.Placed P
  | .default span => P span

mutual

def TypeSpec.Placed : TypeSpec → Prop
  | .primitive _ => True
  | .named t => t.Placed P
  | .sequence element b => element.Placed ∧ ∀ e ∈ b, e.Placed P
  | .set element b => element.Placed ∧ ∀ e ∈ b, e.Placed P
  | .map key value b => key.Placed ∧ value.Placed ∧ ∀ e ∈ b, e.Placed P
  | .string b => ∀ e ∈ b, e.Placed P
  | .wstring b => ∀ e ∈ b, e.Placed P
  | .fixed none => True
  | .fixed (some (digits, scale)) => digits.Placed P ∧ scale.Placed P
  | .struct ⟨name, base, fields, _⟩ =>
    name.Placed P ∧ (∀ b ∈ base, b.Placed P) ∧ membersPlaced fields
  | .union ⟨name, ⟨as, type, span⟩, cases, _⟩ =>
    name.Placed P ∧ (∀ a ∈ as, a.Placed P) ∧ type.Placed ∧ P span ∧ casesPlaced cases
  | .enum t => t.Placed P
  | .bitset t => t.Placed P
  | .bitmask t => t.Placed P

def membersPlaced : List (Member TypeSpec) → Prop
  | [] => True
  | ⟨as, type, ds, _⟩ :: rest =>
    ((∀ a ∈ as, a.Placed P) ∧ type.Placed ∧ ∀ d ∈ ds, d.Placed P) ∧ membersPlaced rest

def casesPlaced : List (UnionCase TypeSpec) → Prop
  | [] => True
  | ⟨labels, as, type, d, _⟩ :: rest =>
    ((∀ l ∈ labels, l.Placed P) ∧ (∀ a ∈ as, a.Placed P) ∧ type.Placed ∧ d.Placed P) ∧
      casesPlaced rest

end

structure Member.Placed (m : Member TypeSpec) : Prop where
  annotations : ∀ a ∈ m.annotations, a.Placed P
  type : m.type.Placed P
  declarators : ∀ d ∈ m.declarators, d.Placed P

structure UnionCase.Placed (c : UnionCase TypeSpec) : Prop where
  labels : ∀ l ∈ c.labels, l.Placed P
  annotations : ∀ a ∈ c.annotations, a.Placed P
  type : c.type.Placed P
  declarator : c.declarator.Placed P

/-! Definitions. -/

structure Typedef.Placed (d : Typedef) : Prop where
  type : d.type.Placed P
  declarators : ∀ x ∈ d.declarators, x.Placed P

structure ConstDecl.Placed (d : ConstDecl) : Prop where
  type : d.type.Placed P
  name : d.name.Placed P
  value : d.value.Placed P

structure ExceptionDecl.Placed (d : ExceptionDecl) : Prop where
  name : d.name.Placed P
  members : membersPlaced P d.members

structure ValueBox.Placed (d : ValueBox) : Prop where
  name : d.name.Placed P
  type : d.type.Placed P

mutual

def Definition.Placed : Definition → Prop
  | ⟨as, kind, _⟩ => (∀ a ∈ as, a.Placed P) ∧ kindPlaced kind

/-- What an annotation declares is not looked into. -/
def kindPlaced : DefinitionKind Definition → Prop
  | .module ⟨name, ds⟩ => name.Placed P ∧ allPlaced ds
  | .struct t => (TypeSpec.struct t).Placed P
  | .union t => (TypeSpec.union t).Placed P
  | .enum t => t.Placed P
  | .bitset t => t.Placed P
  | .bitmask t => t.Placed P
  | .typedef d => d.Placed P
  | .const d => d.Placed P
  | .exception d => d.Placed P
  | .native name => name.Placed P
  | .forward d => d.name.Placed P
  | .interface ⟨name, _, _, body⟩ => name.Placed P ∧ exportsPlaced body
  | .value ⟨name, _, _, _, _, body⟩ => name.Placed P ∧ exportsPlaced body
  | .event ⟨name, _, _, _, _, body⟩ => name.Placed P ∧ exportsPlaced body
  | .valueBox d => d.Placed P
  | .component ⟨name, _, _, body⟩ => name.Placed P ∧ exportsPlaced body
  | .home ⟨name, _, _, _, _, body⟩ => name.Placed P ∧ exportsPlaced body
  | .typeId _ => True
  | .typePrefix _ => True
  | .annotationDecl _ => True

def allPlaced : List Definition → Prop
  | [] => True
  | d :: ds => d.Placed ∧ allPlaced ds

def exportsPlaced : List (Export Definition) → Prop
  | [] => True
  | .definition d :: rest => d.Placed ∧ exportsPlaced rest
  | .stateMember m :: rest => m.member.Placed P ∧ exportsPlaced rest
  | .attribute _ :: rest => exportsPlaced rest
  | .operation _ :: rest => exportsPlaced rest
  | .initializer _ :: rest => exportsPlaced rest
  | .port _ :: rest => exportsPlaced rest

end

def Export.Placed : Export Definition → Prop
  | .definition d => d.Placed P
  | .stateMember m => m.member.Placed P
  | .attribute _ | .operation _ | .initializer _ | .port _ => True

end

variable {P : Span → Prop}

theorem ConstExpr.Placed.span {e : ConstExpr} (placed : e.Placed P) : P e.span := by
  cases e with
  | binary => exact placed.2.2
  | unary => exact placed.2
  | literal => exact placed
  | name => exact placed

theorem ConstExpr.Placed.withValue {e : ConstExpr} (placed : e.Placed P)
    (value : Option Constant) : (e.withValue value).Placed P := by
  cases e <;> exact placed

theorem membersPlaced_iff (ms : List (Member TypeSpec)) :
    membersPlaced P ms ↔ ∀ m ∈ ms, m.Placed P := by
  induction ms with
  | nil => simp [membersPlaced]
  | cons m ms ih =>
    obtain ⟨as, type, ds, span⟩ := m
    rw [membersPlaced, ih, List.forall_mem_cons]
    exact and_congr_left fun _ => ⟨fun ⟨a, t, d⟩ => ⟨a, t, d⟩, fun ⟨a, t, d⟩ => ⟨a, t, d⟩⟩

theorem casesPlaced_iff (cs : List (UnionCase TypeSpec)) :
    casesPlaced P cs ↔ ∀ c ∈ cs, c.Placed P := by
  induction cs with
  | nil => simp [casesPlaced]
  | cons c cs ih =>
    obtain ⟨labels, as, type, d, span⟩ := c
    rw [casesPlaced, ih, List.forall_mem_cons]
    exact and_congr_left fun _ =>
      ⟨fun ⟨l, a, t, d⟩ => ⟨l, a, t, d⟩, fun ⟨l, a, t, d⟩ => ⟨l, a, t, d⟩⟩

theorem allPlaced_iff (ds : List Definition) : allPlaced P ds ↔ ∀ d ∈ ds, d.Placed P := by
  induction ds with
  | nil => simp [allPlaced]
  | cons d ds ih => rw [allPlaced, ih, List.forall_mem_cons]

theorem exportsPlaced_iff (es : List (Export Definition)) :
    exportsPlaced P es ↔ ∀ e ∈ es, e.Placed P := by
  induction es with
  | nil => simp [exportsPlaced]
  | cons e es ih =>
    cases e <;> simp [exportsPlaced, ih, Export.Placed]

/-! Declarations. -/

theorem namedBy_enum {owner : Ident} {kind : SymbolKind} {values : List Enumerator}
    (name : owner.Placed P) (each : ∀ v ∈ values, v.Placed P) :
    NamedBy (Ident.Placed P) (listing owner kind values) :=
  namedBy_listing.mpr ⟨name, fun v mem => (each v mem).name⟩

theorem namedBy_nil (Q : Ident → Prop) : NamedBy Q [] := fun _ mem => nomatch mem

mutual

theorem namedBy_typeSpec : (t : TypeSpec) → t.Placed P → NamedBy (Ident.Placed P) t.declarations
  | .struct ⟨name, _, fields, _⟩, placed => by
    rw [TypeSpec.Placed] at placed
    rw [TypeSpec.declarations]
    exact namedBy_cons.mpr ⟨placed.1, namedBy_members fields placed.2.2⟩
  | .union ⟨name, ⟨_, type, _⟩, cases, _⟩, placed => by
    rw [TypeSpec.Placed] at placed
    rw [TypeSpec.declarations]
    exact namedBy_cons.mpr ⟨placed.1, namedBy_append.mpr
      ⟨namedBy_typeSpec type placed.2.2.1, namedBy_cases cases placed.2.2.2.2⟩⟩
  | .enum t, placed => by
    rw [TypeSpec.Placed] at placed
    rw [TypeSpec.declarations]
    exact namedBy_enum placed.name placed.enumerators
  | .bitset t, placed => by
    rw [TypeSpec.Placed] at placed
    rw [TypeSpec.declarations]
    exact namedBy_cons.mpr ⟨placed.name, namedBy_nil _⟩
  | .bitmask t, placed => by
    rw [TypeSpec.Placed] at placed
    rw [TypeSpec.declarations]
    exact namedBy_enum placed.name placed.values
  | .sequence element _, placed => by
    rw [TypeSpec.Placed] at placed
    rw [TypeSpec.declarations]
    exact namedBy_typeSpec element placed.1
  | .set element _, placed => by
    rw [TypeSpec.Placed] at placed
    rw [TypeSpec.declarations]
    exact namedBy_typeSpec element placed.1
  | .map key value _, placed => by
    rw [TypeSpec.Placed] at placed
    rw [TypeSpec.declarations]
    exact namedBy_append.mpr ⟨namedBy_typeSpec key placed.1, namedBy_typeSpec value placed.2.1⟩
  | .primitive _, _ => by rw [TypeSpec.declarations]; exact namedBy_nil _
  | .named _, _ => by rw [TypeSpec.declarations]; exact namedBy_nil _
  | .string _, _ => by rw [TypeSpec.declarations]; exact namedBy_nil _
  | .wstring _, _ => by rw [TypeSpec.declarations]; exact namedBy_nil _
  | .fixed _, _ => by rw [TypeSpec.declarations]; exact namedBy_nil _

theorem namedBy_members : (ms : List (Member TypeSpec)) → membersPlaced P ms →
    NamedBy (Ident.Placed P) (memberDeclarations ms)
  | [], _ => by rw [memberDeclarations]; exact namedBy_nil _
  | ⟨_, type, _, _⟩ :: rest, placed => by
    rw [membersPlaced] at placed
    rw [memberDeclarations]
    exact namedBy_append.mpr ⟨namedBy_typeSpec type placed.1.2.1, namedBy_members rest placed.2⟩

theorem namedBy_cases : (cs : List (UnionCase TypeSpec)) → casesPlaced P cs →
    NamedBy (Ident.Placed P) (caseDeclarations cs)
  | [], _ => by rw [caseDeclarations]; exact namedBy_nil _
  | ⟨_, _, type, _, _⟩ :: rest, placed => by
    rw [casesPlaced] at placed
    rw [caseDeclarations]
    exact namedBy_append.mpr ⟨namedBy_typeSpec type placed.1.2.2.1, namedBy_cases rest placed.2⟩

end

theorem namedBy_typedef {d : Typedef} (placed : d.Placed P) :
    NamedBy (Ident.Placed P) d.declarations := by
  refine namedBy_append.mpr ⟨namedBy_typeSpec d.type placed.type, fun x mem => ?_⟩
  obtain ⟨y, inside, rfl⟩ := List.mem_map.mp mem
  exact (placed.declarators y inside).name

mutual

theorem namedBy_definition : (d : Definition) → d.Placed P →
    NamedBy (Ident.Placed P) d.declarations
  | ⟨_, kind, _⟩, placed => by
    rw [Definition.Placed] at placed
    rw [Definition.declarations]
    exact namedBy_kind kind placed.2

theorem namedBy_kind : (kind : DefinitionKind Definition) → kindPlaced P kind →
    NamedBy (Ident.Placed P) (kindDeclarations kind)
  | .module ⟨name, ds⟩, placed => by
    rw [kindPlaced] at placed
    rw [kindDeclarations]
    exact namedBy_cons.mpr ⟨placed.1, namedBy_allDeclarations ds placed.2⟩
  | .struct t, placed => by
    rw [kindPlaced] at placed
    rw [kindDeclarations]
    exact namedBy_typeSpec _ placed
  | .union t, placed => by
    rw [kindPlaced] at placed
    rw [kindDeclarations]
    exact namedBy_typeSpec _ placed
  | .enum t, placed => by
    rw [kindPlaced] at placed
    rw [kindDeclarations]
    exact namedBy_enum placed.name placed.enumerators
  | .bitset t, placed => by
    rw [kindPlaced] at placed
    rw [kindDeclarations]
    exact namedBy_cons.mpr ⟨placed.name, namedBy_nil _⟩
  | .bitmask t, placed => by
    rw [kindPlaced] at placed
    rw [kindDeclarations]
    exact namedBy_enum placed.name placed.values
  | .typedef d, placed => by
    rw [kindPlaced] at placed
    rw [kindDeclarations]
    exact namedBy_typedef placed
  | .const d, placed => by
    rw [kindPlaced] at placed
    rw [kindDeclarations]
    exact namedBy_cons.mpr ⟨placed.name, namedBy_nil _⟩
  | .exception d, placed => by
    rw [kindPlaced] at placed
    rw [kindDeclarations]
    exact namedBy_cons.mpr ⟨placed.name, namedBy_members d.members placed.members⟩
  | .native name, placed => by
    rw [kindPlaced] at placed
    rw [kindDeclarations]
    exact namedBy_cons.mpr ⟨placed, namedBy_nil _⟩
  | .forward d, placed => by
    rw [kindPlaced] at placed
    rw [kindDeclarations]
    exact namedBy_cons.mpr ⟨placed, namedBy_nil _⟩
  | .interface ⟨name, _, _, body⟩, placed => by
    rw [kindPlaced] at placed
    rw [kindDeclarations]
    exact namedBy_cons.mpr ⟨placed.1, namedBy_exports body placed.2⟩
  | .value ⟨name, _, _, _, _, body⟩, placed => by
    rw [kindPlaced] at placed
    rw [kindDeclarations]
    exact namedBy_cons.mpr ⟨placed.1, namedBy_exports body placed.2⟩
  | .event ⟨name, _, _, _, _, body⟩, placed => by
    rw [kindPlaced] at placed
    rw [kindDeclarations]
    exact namedBy_cons.mpr ⟨placed.1, namedBy_exports body placed.2⟩
  | .valueBox d, placed => by
    rw [kindPlaced] at placed
    rw [kindDeclarations]
    exact namedBy_cons.mpr ⟨placed.name, namedBy_nil _⟩
  | .component ⟨name, _, _, body⟩, placed => by
    rw [kindPlaced] at placed
    rw [kindDeclarations]
    exact namedBy_cons.mpr ⟨placed.1, namedBy_exports body placed.2⟩
  | .home ⟨name, _, _, _, _, body⟩, placed => by
    rw [kindPlaced] at placed
    rw [kindDeclarations]
    exact namedBy_cons.mpr ⟨placed.1, namedBy_exports body placed.2⟩
  | .typeId _, _ => by rw [kindDeclarations]; exact namedBy_nil _
  | .typePrefix _, _ => by rw [kindDeclarations]; exact namedBy_nil _
  | .annotationDecl _, _ => by rw [kindDeclarations]; exact namedBy_nil _

theorem namedBy_allDeclarations : (ds : List Definition) → allPlaced P ds →
    NamedBy (Ident.Placed P) (allDeclarations ds)
  | [], _ => by rw [allDeclarations]; exact namedBy_nil _
  | d :: ds, placed => by
    rw [allPlaced] at placed
    rw [allDeclarations]
    exact namedBy_append.mpr ⟨namedBy_definition d placed.1, namedBy_allDeclarations ds placed.2⟩

theorem namedBy_exports : (es : List (Export Definition)) → exportsPlaced P es →
    NamedBy (Ident.Placed P) (exportDeclarations es)
  | [], _ => by rw [exportDeclarations]; exact namedBy_nil _
  | .definition d :: rest, placed => by
    rw [exportsPlaced] at placed
    rw [exportDeclarations]
    exact namedBy_append.mpr ⟨namedBy_definition d placed.1, namedBy_exports rest placed.2⟩
  | .stateMember m :: rest, placed => by
    rw [exportsPlaced] at placed
    rw [exportDeclarations]
    exact namedBy_append.mpr ⟨namedBy_typeSpec m.member.type placed.1.type,
      namedBy_exports rest placed.2⟩
  | .attribute _ :: rest, placed => by
    rw [exportsPlaced] at placed
    rw [exportDeclarations]
    exact namedBy_exports rest placed
  | .operation _ :: rest, placed => by
    rw [exportsPlaced] at placed
    rw [exportDeclarations]
    exact namedBy_exports rest placed
  | .initializer _ :: rest, placed => by
    rw [exportsPlaced] at placed
    rw [exportDeclarations]
    exact namedBy_exports rest placed
  | .port _ :: rest, placed => by
    rw [exportsPlaced] at placed
    rw [exportDeclarations]
    exact namedBy_exports rest placed

end

end Idl
