import Idl.Proofs.Grammar.Rendering
import Idl.Syntax.Definition

/-!
Trees without their places: two trees are the same up to places if they are equal bare. Names and
expressions have this already; here it is for all that is built from them.
-/

set_option autoImplicit false

namespace Idl

/-! Annotations and declarators. -/

def AnnotationArgs.bare : AnnotationArgs → AnnotationArgs
  | .none => .none
  | .single e => .single e.unplaced
  | .named params => .named (params.map fun p => (p.1.unplaced, p.2.unplaced))

def AnnotationUse.bare (a : AnnotationUse) : AnnotationUse := ⟨a.name.unplaced, a.args.bare, .empty⟩

def Declarator.bare (d : Declarator) : Declarator :=
  ⟨d.name.unplaced, d.dims.map ConstExpr.unplaced⟩

def Enumerator.bare (v : Enumerator) : Enumerator :=
  ⟨v.annotations.map AnnotationUse.bare, v.name.unplaced⟩

/-! Types. -/

def NamedType.bare (t : NamedType) : NamedType := ⟨t.name.unplaced, t.target⟩

def EnumType.bare (t : EnumType) : EnumType :=
  ⟨t.name.unplaced, t.enumerators.map Enumerator.bare, .empty⟩

def BitmaskType.bare (t : BitmaskType) : BitmaskType :=
  ⟨t.name.unplaced, t.values.map Enumerator.bare, .empty⟩

def Bitfield.bare (f : Bitfield) : Bitfield :=
  ⟨f.annotations.map AnnotationUse.bare, f.width.unplaced, f.type, f.names.map Ident.unplaced,
    .empty⟩

def BitsetType.bare (t : BitsetType) : BitsetType :=
  ⟨t.name.unplaced, t.base.map NamedType.bare, t.bitfields.map Bitfield.bare, .empty⟩

def CaseLabel.bare : CaseLabel → CaseLabel
  | .value e => .value e.unplaced
  | .default _ => .default .empty

mutual

def TypeSpec.bare : TypeSpec → TypeSpec
  | .primitive k => .primitive k
  | .named t => .named t.bare
  | .sequence element b => .sequence element.bare (b.map ConstExpr.unplaced)
  | .set element b => .set element.bare (b.map ConstExpr.unplaced)
  | .map key value b => .map key.bare value.bare (b.map ConstExpr.unplaced)
  | .string b => .string (b.map ConstExpr.unplaced)
  | .wstring b => .wstring (b.map ConstExpr.unplaced)
  | .fixed args => .fixed (args.map fun p => (p.1.unplaced, p.2.unplaced))
  | .struct ⟨name, base, fields, _⟩ =>
    .struct ⟨name.unplaced, base.map NamedType.bare, bareMembers fields, .empty⟩
  | .union ⟨name, ⟨as, type, _⟩, cases, _⟩ =>
    .union ⟨name.unplaced, ⟨as.map AnnotationUse.bare, type.bare, .empty⟩, bareCases cases, .empty⟩
  | .enum t => .enum t.bare
  | .bitset t => .bitset t.bare
  | .bitmask t => .bitmask t.bare

def bareMembers : List (Member TypeSpec) → List (Member TypeSpec)
  | [] => []
  | ⟨as, type, ds, _⟩ :: rest =>
    ⟨as.map AnnotationUse.bare, type.bare, ds.map Declarator.bare, .empty⟩ :: bareMembers rest

def bareCases : List (UnionCase TypeSpec) → List (UnionCase TypeSpec)
  | [] => []
  | ⟨labels, as, type, d, _⟩ :: rest =>
    ⟨labels.map CaseLabel.bare, as.map AnnotationUse.bare, type.bare, d.bare, .empty⟩ ::
      bareCases rest

end

def Member.bare (m : Member TypeSpec) : Member TypeSpec :=
  ⟨m.annotations.map AnnotationUse.bare, m.type.bare, m.declarators.map Declarator.bare, .empty⟩

def UnionCase.bare (c : UnionCase TypeSpec) : UnionCase TypeSpec :=
  ⟨c.labels.map CaseLabel.bare, c.annotations.map AnnotationUse.bare, c.type.bare,
    c.declarator.bare, .empty⟩

theorem bareMembers_eq (ms : List (Member TypeSpec)) : bareMembers ms = ms.map Member.bare := by
  induction ms with
  | nil => rw [bareMembers, List.map_nil]
  | cons m ms ih => rw [bareMembers, ih, List.map_cons, Member.bare]

theorem bareCases_eq (cs : List (UnionCase TypeSpec)) : bareCases cs = cs.map UnionCase.bare := by
  induction cs with
  | nil => rw [bareCases, List.map_nil]
  | cons c cs ih => rw [bareCases, ih, List.map_cons, UnionCase.bare]

def StructType.bare (t : StructType TypeSpec) : StructType TypeSpec :=
  ⟨t.name.unplaced, t.base.map NamedType.bare, t.members.map Member.bare, .empty⟩

def SwitchType.bare (t : SwitchType TypeSpec) : SwitchType TypeSpec :=
  ⟨t.annotations.map AnnotationUse.bare, t.type.bare, .empty⟩

def UnionType.bare (t : UnionType TypeSpec) : UnionType TypeSpec :=
  ⟨t.name.unplaced, t.discriminant.bare, t.cases.map UnionCase.bare, .empty⟩

theorem TypeSpec.bare_struct (t : StructType TypeSpec) :
    (TypeSpec.struct t).bare = .struct t.bare := by
  rw [TypeSpec.bare, bareMembers_eq, StructType.bare]

theorem TypeSpec.bare_union (t : UnionType TypeSpec) : (TypeSpec.union t).bare = .union t.bare := by
  rw [TypeSpec.bare, bareCases_eq, UnionType.bare, SwitchType.bare]

/-! Definitions. -/

def Typedef.bare (d : Typedef) : Typedef := ⟨d.type.bare, d.declarators.map Declarator.bare⟩

def ConstDecl.bare (d : ConstDecl) : ConstDecl :=
  ⟨d.type.bare, d.name.unplaced, d.value.unplaced⟩

def ExceptionDecl.bare (d : ExceptionDecl) : ExceptionDecl :=
  ⟨d.name.unplaced, d.members.map Member.bare⟩

def ForwardDecl.bare (d : ForwardDecl) : ForwardDecl := ⟨d.kind, d.name.unplaced, d.qualifier⟩

def Attribute.bare (a : Attribute) : Attribute :=
  ⟨a.annotations.map AnnotationUse.bare, a.readonly, a.type.bare, a.names.map Ident.unplaced,
    a.getRaises.map ScopedName.unplaced, a.setRaises.map ScopedName.unplaced, .empty⟩

def Param.bare (p : Param) : Param :=
  ⟨p.annotations.map AnnotationUse.bare, p.direction, p.type.bare, p.name.unplaced⟩

def Operation.bare (o : Operation) : Operation :=
  ⟨o.annotations.map AnnotationUse.bare, o.oneway, o.result.map TypeSpec.bare, o.name.unplaced,
    o.params.map Param.bare, o.raises.map ScopedName.unplaced, o.context, .empty⟩

def StateMember.bare (m : StateMember) : StateMember := ⟨m.isPublic, m.member.bare⟩

def Initializer.bare (i : Initializer) : Initializer :=
  ⟨i.kind, i.name.unplaced, i.params.map Param.bare, i.raises.map ScopedName.unplaced, .empty⟩

def Port.bare (p : Port) : Port := ⟨p.kind, p.type.unplaced, p.name.unplaced, .empty⟩

def ValueBox.bare (d : ValueBox) : ValueBox := ⟨d.name.unplaced, d.type.bare⟩

def RepositoryDecl.bare (d : RepositoryDecl) : RepositoryDecl := ⟨d.target.unplaced, d.text⟩

def AnnotationMember.bare (m : AnnotationMember) : AnnotationMember :=
  ⟨m.type.bare, m.name.unplaced, m.default.map ConstExpr.unplaced⟩

mutual

def Definition.bare : Definition → Definition
  | ⟨as, kind, _⟩ => ⟨as.map AnnotationUse.bare, bareKind kind, .empty⟩

def bareKind : DefinitionKind Definition → DefinitionKind Definition
  | .module ⟨name, ds⟩ => .module ⟨name.unplaced, bareDefinitions ds⟩
  | .struct t => .struct t.bare
  | .union t => .union t.bare
  | .enum t => .enum t.bare
  | .bitset t => .bitset t.bare
  | .bitmask t => .bitmask t.bare
  | .typedef d => .typedef d.bare
  | .const d => .const d.bare
  | .exception d => .exception d.bare
  | .native name => .native name.unplaced
  | .forward d => .forward d.bare
  | .interface ⟨name, q, bases, body⟩ =>
    .interface ⟨name.unplaced, q, bases.map ScopedName.unplaced, bareExports body⟩
  | .value ⟨name, q, truncatable, bases, supports, body⟩ =>
    .value ⟨name.unplaced, q, truncatable, bases.map ScopedName.unplaced,
      supports.map ScopedName.unplaced, bareExports body⟩
  | .event ⟨name, q, truncatable, bases, supports, body⟩ =>
    .event ⟨name.unplaced, q, truncatable, bases.map ScopedName.unplaced,
      supports.map ScopedName.unplaced, bareExports body⟩
  | .valueBox d => .valueBox d.bare
  | .component ⟨name, base, supports, body⟩ =>
    .component ⟨name.unplaced, base.map ScopedName.unplaced, supports.map ScopedName.unplaced,
      bareExports body⟩
  | .home ⟨name, base, supports, manages, key, body⟩ =>
    .home ⟨name.unplaced, base.map ScopedName.unplaced, supports.map ScopedName.unplaced,
      manages.unplaced, key.map ScopedName.unplaced, bareExports body⟩
  | .typeId d => .typeId d.bare
  | .typePrefix d => .typePrefix d.bare
  | .annotationDecl ⟨name, ms, ds⟩ =>
    .annotationDecl ⟨name.unplaced, ms.map AnnotationMember.bare, bareDefinitions ds⟩

def bareDefinitions : List Definition → List Definition
  | [] => []
  | d :: ds => d.bare :: bareDefinitions ds

def bareExports : List (Export Definition) → List (Export Definition)
  | [] => []
  | .definition d :: rest => .definition d.bare :: bareExports rest
  | .attribute a :: rest => .attribute a.bare :: bareExports rest
  | .operation o :: rest => .operation o.bare :: bareExports rest
  | .stateMember m :: rest => .stateMember m.bare :: bareExports rest
  | .initializer i :: rest => .initializer i.bare :: bareExports rest
  | .port p :: rest => .port p.bare :: bareExports rest

end

def Export.bare : Export Definition → Export Definition
  | .definition d => .definition d.bare
  | .attribute a => .attribute a.bare
  | .operation o => .operation o.bare
  | .stateMember m => .stateMember m.bare
  | .initializer i => .initializer i.bare
  | .port p => .port p.bare

theorem bareDefinitions_eq (ds : List Definition) :
    bareDefinitions ds = ds.map Definition.bare := by
  induction ds with
  | nil => rw [bareDefinitions, List.map_nil]
  | cons d ds ih => rw [bareDefinitions, ih, List.map_cons]

theorem bareExports_eq (es : List (Export Definition)) : bareExports es = es.map Export.bare := by
  induction es with
  | nil => rw [bareExports, List.map_nil]
  | cons e es ih => cases e <;> rw [bareExports, ih, List.map_cons, Export.bare]

def ImportTarget.bare : ImportTarget → ImportTarget
  | .scope name => .scope name.unplaced
  | .file path => .file path

def Import.bare (i : Import) : Import := ⟨i.target.bare, .empty⟩

def Specification.bare (s : Specification) : Specification :=
  ⟨s.imports.map Import.bare, s.definitions.map Definition.bare⟩

end Idl
