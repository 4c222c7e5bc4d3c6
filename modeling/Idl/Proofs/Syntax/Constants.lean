import Idl.Proofs.Grammar.Formed
import Idl.Proofs.Syntax.Site

/-!
The values in a tree: all that evaluation has put into its expressions, at any depth. A unit that
was only read has none. Main statements: `constants_of_formed` and `constants_front`.
-/

set_option autoImplicit false

namespace Idl

/-! Expressions, annotations and declarators. -/

/-- The values of an expression and of its parts. -/
def ConstExpr.constants : ConstExpr → List Constant
  | .binary _ left right _ value => left.constants ++ right.constants ++ value.toList
  | .unary _ operand _ value => operand.constants ++ value.toList
  | .literal _ _ value => value.toList
  | .name _ _ value => value.toList

def AnnotationArgs.constants : AnnotationArgs → List Constant
  | .none => []
  | .single value => value.constants
  | .named params => params.flatMap (·.2.constants)

def AnnotationUse.constants (a : AnnotationUse) : List Constant := a.args.constants

def Declarator.constants (d : Declarator) : List Constant := d.dims.flatMap ConstExpr.constants

def Enumerator.constants (v : Enumerator) : List Constant :=
  v.annotations.flatMap AnnotationUse.constants

/-! Types. -/

def EnumType.constants (t : EnumType) : List Constant := t.enumerators.flatMap Enumerator.constants

def BitmaskType.constants (t : BitmaskType) : List Constant := t.values.flatMap Enumerator.constants

def Bitfield.constants (f : Bitfield) : List Constant :=
  f.annotations.flatMap AnnotationUse.constants ++ f.width.constants

def BitsetType.constants (t : BitsetType) : List Constant := t.bitfields.flatMap Bitfield.constants

def CaseLabel.constants : CaseLabel → List Constant
  | .value e => e.constants
  | .default _ => []

mutual

def TypeSpec.constants : TypeSpec → List Constant
  | .primitive _ => []
  | .named _ => []
  | .sequence element b => element.constants ++ b.toList.flatMap ConstExpr.constants
  | .set element b => element.constants ++ b.toList.flatMap ConstExpr.constants
  | .map key value b =>
    key.constants ++ (value.constants ++ b.toList.flatMap ConstExpr.constants)
  | .string b => b.toList.flatMap ConstExpr.constants
  | .wstring b => b.toList.flatMap ConstExpr.constants
  | .fixed none => []
  | .fixed (some (digits, scale)) => digits.constants ++ scale.constants
  | .struct ⟨_, _, fields, _⟩ => memberConstants fields
  | .union ⟨_, ⟨as, type, _⟩, cases, _⟩ =>
    as.flatMap AnnotationUse.constants ++ (type.constants ++ caseConstants cases)
  | .enum t => t.constants
  | .bitset t => t.constants
  | .bitmask t => t.constants

def memberConstants : List (Member TypeSpec) → List Constant
  | [] => []
  | ⟨as, type, ds, _⟩ :: rest =>
    as.flatMap AnnotationUse.constants ++ (type.constants ++
      (ds.flatMap Declarator.constants ++ memberConstants rest))

def caseConstants : List (UnionCase TypeSpec) → List Constant
  | [] => []
  | ⟨labels, as, type, d, _⟩ :: rest =>
    labels.flatMap CaseLabel.constants ++ (as.flatMap AnnotationUse.constants ++
      (type.constants ++ (d.constants ++ caseConstants rest)))

end

/-! Definitions. -/

def Typedef.constants (d : Typedef) : List Constant :=
  d.type.constants ++ d.declarators.flatMap Declarator.constants

def ConstDecl.constants (d : ConstDecl) : List Constant := d.type.constants ++ d.value.constants

def Param.constants (p : Param) : List Constant :=
  p.annotations.flatMap AnnotationUse.constants ++ p.type.constants

def Attribute.constants (a : Attribute) : List Constant :=
  a.annotations.flatMap AnnotationUse.constants ++ a.type.constants

def Operation.constants (o : Operation) : List Constant :=
  o.annotations.flatMap AnnotationUse.constants ++ (o.result.toList.flatMap TypeSpec.constants ++
    o.params.flatMap Param.constants)

def Initializer.constants (i : Initializer) : List Constant := i.params.flatMap Param.constants

def AnnotationMember.constants (m : AnnotationMember) : List Constant :=
  m.type.constants ++ m.default.toList.flatMap ConstExpr.constants

mutual

def Definition.constants : Definition → List Constant
  | ⟨as, kind, _⟩ => as.flatMap AnnotationUse.constants ++ kindConstants kind

def kindConstants : DefinitionKind Definition → List Constant
  | .module ⟨_, ds⟩ => allConstants ds
  | .struct t => (TypeSpec.struct t).constants
  | .union t => (TypeSpec.union t).constants
  | .enum t => t.constants
  | .bitset t => t.constants
  | .bitmask t => t.constants
  | .typedef d => d.constants
  | .const d => d.constants
  | .exception d => memberConstants d.members
  | .interface ⟨_, _, _, body⟩ => exportConstants body
  | .value ⟨_, _, _, _, _, body⟩ => exportConstants body
  | .event ⟨_, _, _, _, _, body⟩ => exportConstants body
  | .valueBox d => d.type.constants
  | .component ⟨_, _, _, body⟩ => exportConstants body
  | .home ⟨_, _, _, _, _, body⟩ => exportConstants body
  | .annotationDecl ⟨_, ms, ds⟩ => ms.flatMap AnnotationMember.constants ++ allConstants ds
  | .native _ => []
  | .forward _ => []
  | .typeId _ => []
  | .typePrefix _ => []

def allConstants : List Definition → List Constant
  | [] => []
  | d :: ds => d.constants ++ allConstants ds

def exportConstants : List (Export Definition) → List Constant
  | [] => []
  | .definition d :: rest => d.constants ++ exportConstants rest
  | .stateMember m :: rest => memberConstants [m.member] ++ exportConstants rest
  | .attribute a :: rest => a.constants ++ exportConstants rest
  | .operation o :: rest => o.constants ++ exportConstants rest
  | .initializer i :: rest => i.constants ++ exportConstants rest
  | .port _ :: rest => exportConstants rest

end

/-- The values in a unit. -/
def Specification.constants (s : Specification) : List Constant := allConstants s.definitions

/-! The value of an expression is one of its values, and it alone is replaced. -/

theorem ConstExpr.mem_constants {e : ConstExpr} {c : Constant} (value : e.value = some c) :
    c ∈ e.constants := by
  cases e <;> cases value <;> simp [constants]

theorem ConstExpr.mem_constants_withValue {e : ConstExpr} {new c : Constant}
    (mem : c ∈ (e.withValue (some new)).constants) : c = new ∨ c ∈ e.constants := by
  cases e <;> simp only [withValue, constants, List.mem_append, Option.mem_toList,
    Option.some.injEq] at mem ⊢ <;> grind

/-! Nothing is evaluated in what was only read. -/

theorem ConstExpr.constants_of_formed {e : ConstExpr} (formed : e.Formed) : e.constants = [] := by
  induction e with
  | binary op left right span value first second =>
    obtain ⟨l, r, rfl⟩ := formed
    rw [constants, first l, second r]
    rfl
  | unary op operand span value inner =>
    obtain ⟨o, rfl⟩ := formed
    rw [constants, inner o]
    rfl
  | literal l span value =>
    obtain ⟨-, rfl⟩ := formed
    rfl
  | name n span value =>
    obtain ⟨-, rfl⟩ := formed
    rfl

/-- Nothing is in the parts of which each has nothing. -/
theorem flatMap_constants {α : Type} {F : α → Prop} {f : α → List Constant} {xs : List α}
    (each : ∀ x, F x → f x = []) (formed : ∀ x ∈ xs, F x) : xs.flatMap f = [] :=
  List.flatMap_eq_nil_iff.mpr fun x mem => each x (formed x mem)

theorem AnnotationUse.constants_of_formed {a : AnnotationUse} (formed : a.Formed) :
    a.constants = [] := by
  obtain ⟨name, args, span⟩ := a
  have parts := formed.args
  rw [AnnotationUse.constants]
  cases args with
  | none => rfl
  | single e => exact ConstExpr.constants_of_formed parts
  | named params =>
    exact flatMap_constants (fun _ => ConstExpr.constants_of_formed) fun p mem => (parts.2 p mem).2

theorem annotations_of_formed {as : List AnnotationUse} (formed : ∀ a ∈ as, a.Formed) :
    as.flatMap AnnotationUse.constants = [] :=
  flatMap_constants (fun _ => AnnotationUse.constants_of_formed) formed

theorem size_of_formed {b : Option ConstExpr} (formed : ∀ e ∈ b, e.Formed) :
    b.toList.flatMap ConstExpr.constants = [] :=
  flatMap_constants (fun _ => ConstExpr.constants_of_formed) fun e mem =>
    formed e (Option.mem_toList.mp mem)

theorem Declarator.constants_of_formed {d : Declarator} (formed : d.Formed) : d.constants = [] :=
  flatMap_constants (fun _ => ConstExpr.constants_of_formed) formed.dims

theorem listed_of_formed {vs : List Enumerator} (formed : ∀ v ∈ vs, v.Formed) :
    vs.flatMap Enumerator.constants = [] :=
  flatMap_constants (fun _ v => annotations_of_formed v.annotations) formed

theorem BitsetType.constants_of_formed {t : BitsetType} (formed : t.Formed) : t.constants = [] := by
  refine flatMap_constants (fun f field => ?_) formed.bitfields
  rw [Bitfield.constants, annotations_of_formed field.annotations,
    ConstExpr.constants_of_formed field.width, List.nil_append]

theorem CaseLabel.constants_of_formed {l : CaseLabel} (formed : l.Formed) : l.constants = [] := by
  cases l with
  | value e => exact ConstExpr.constants_of_formed formed
  | default span => rfl

mutual

theorem TypeSpec.constants_of_formed : (τ : TypeSpec) → τ.Formed → τ.constants = []
  | .primitive _, _ => by rw [TypeSpec.constants]
  | .named _, _ => by rw [TypeSpec.constants]
  | .sequence element b, formed => by
    rw [TypeSpec.Formed] at formed
    rw [TypeSpec.constants, element.constants_of_formed formed.1, size_of_formed formed.2,
      List.nil_append]
  | .set element b, formed => by
    rw [TypeSpec.Formed] at formed
    rw [TypeSpec.constants, element.constants_of_formed formed.1, size_of_formed formed.2,
      List.nil_append]
  | .map key value b, formed => by
    rw [TypeSpec.Formed] at formed
    rw [TypeSpec.constants, key.constants_of_formed formed.1, value.constants_of_formed formed.2.1,
      size_of_formed formed.2.2, List.nil_append, List.nil_append]
  | .string b, formed => by
    rw [TypeSpec.Formed] at formed
    rw [TypeSpec.constants, size_of_formed formed]
  | .wstring b, formed => by
    rw [TypeSpec.Formed] at formed
    rw [TypeSpec.constants, size_of_formed formed]
  | .fixed none, _ => by rw [TypeSpec.constants]
  | .fixed (some (digits, scale)), formed => by
    rw [TypeSpec.Formed] at formed
    rw [TypeSpec.constants, ConstExpr.constants_of_formed formed.1,
      ConstExpr.constants_of_formed formed.2, List.nil_append]
  | .struct ⟨_, _, fields, _⟩, formed => by
    rw [TypeSpec.Formed] at formed
    rw [TypeSpec.constants, memberConstants_of_formed fields formed.2.2]
  | .union ⟨_, ⟨as, type, _⟩, cases, _⟩, formed => by
    rw [TypeSpec.Formed] at formed
    obtain ⟨-, annotations, discriminant, -, cases'⟩ := formed
    rw [TypeSpec.constants, annotations_of_formed annotations,
      type.constants_of_formed discriminant, caseConstants_of_formed cases cases', List.nil_append,
      List.nil_append]
  | .enum t, formed => by
    rw [TypeSpec.Formed] at formed
    rw [TypeSpec.constants]
    exact listed_of_formed formed.enumerators
  | .bitset t, formed => by
    rw [TypeSpec.Formed] at formed
    rw [TypeSpec.constants, t.constants_of_formed formed]
  | .bitmask t, formed => by
    rw [TypeSpec.Formed] at formed
    rw [TypeSpec.constants]
    exact listed_of_formed formed.values

theorem memberConstants_of_formed : (ms : List (Member TypeSpec)) → membersFormed ms →
    memberConstants ms = []
  | [], _ => by rw [memberConstants]
  | ⟨as, type, ds, _⟩ :: rest, formed => by
    rw [membersFormed] at formed
    obtain ⟨⟨annotations, type', -, declarators⟩, rest'⟩ := formed
    rw [memberConstants, annotations_of_formed annotations, type.constants_of_formed type',
      flatMap_constants (fun _ => Declarator.constants_of_formed) declarators,
      memberConstants_of_formed rest rest', List.nil_append, List.nil_append, List.nil_append]

theorem caseConstants_of_formed : (cs : List (UnionCase TypeSpec)) → casesFormed cs →
    caseConstants cs = []
  | [], _ => by rw [caseConstants]
  | ⟨labels, as, type, d, _⟩ :: rest, formed => by
    rw [casesFormed] at formed
    obtain ⟨⟨-, labels', annotations, type', declarator⟩, rest'⟩ := formed
    rw [caseConstants, flatMap_constants (fun _ => CaseLabel.constants_of_formed) labels',
      annotations_of_formed annotations, type.constants_of_formed type',
      d.constants_of_formed declarator, caseConstants_of_formed rest rest', List.nil_append,
      List.nil_append, List.nil_append, List.nil_append]

end

theorem params_of_formed {ps : List Param} (formed : ∀ p ∈ ps, p.Formed) :
    ps.flatMap Param.constants = [] := by
  refine flatMap_constants (fun p param => ?_) formed
  rw [Param.constants, annotations_of_formed param.annotations,
    p.type.constants_of_formed param.type, List.nil_append]

theorem Attribute.constants_of_formed {a : Attribute} (formed : a.Formed) : a.constants = [] := by
  rw [Attribute.constants, annotations_of_formed formed.annotations,
    a.type.constants_of_formed formed.type, List.nil_append]

theorem Operation.constants_of_formed {o : Operation} (formed : o.Formed) : o.constants = [] := by
  have result : o.result.toList.flatMap TypeSpec.constants = [] :=
    flatMap_constants TypeSpec.constants_of_formed fun τ mem =>
      formed.result τ (Option.mem_toList.mp mem)
  rw [Operation.constants, annotations_of_formed formed.annotations, result,
    params_of_formed formed.params, List.nil_append, List.nil_append]

theorem AnnotationMember.constants_of_formed {m : AnnotationMember} (formed : m.Formed) :
    m.constants = [] := by
  rw [AnnotationMember.constants, m.type.constants_of_formed formed.type,
    size_of_formed formed.default, List.nil_append]

mutual

theorem Definition.constants_of_formed : (d : Definition) → d.Formed → d.constants = []
  | ⟨as, kind, _⟩, formed => by
    rw [Definition.Formed] at formed
    rw [Definition.constants, annotations_of_formed formed.1,
      kindConstants_of_formed kind formed.2, List.nil_append]

theorem kindConstants_of_formed : (kind : DefinitionKind Definition) → kindFormed kind →
    kindConstants kind = []
  | .module ⟨_, ds⟩, formed => by
    rw [kindFormed] at formed
    rw [kindConstants, allConstants_of_formed ds formed.2]
  | .struct t, formed => by
    rw [kindFormed] at formed
    rw [kindConstants, TypeSpec.constants_of_formed _ formed]
  | .union t, formed => by
    rw [kindFormed] at formed
    rw [kindConstants, TypeSpec.constants_of_formed _ formed]
  | .enum t, formed => by
    rw [kindFormed] at formed
    rw [kindConstants]
    exact listed_of_formed formed.enumerators
  | .bitset t, formed => by
    rw [kindFormed] at formed
    rw [kindConstants, t.constants_of_formed formed]
  | .bitmask t, formed => by
    rw [kindFormed] at formed
    rw [kindConstants]
    exact listed_of_formed formed.values
  | .typedef d, formed => by
    rw [kindFormed] at formed
    rw [kindConstants, Typedef.constants, d.type.constants_of_formed formed.type,
      flatMap_constants (fun _ => Declarator.constants_of_formed) formed.declarators,
      List.nil_append]
  | .const d, formed => by
    rw [kindFormed] at formed
    rw [kindConstants, ConstDecl.constants, d.type.constants_of_formed formed.type,
      ConstExpr.constants_of_formed formed.value, List.nil_append]
  | .exception d, formed => by
    rw [kindFormed] at formed
    rw [kindConstants, memberConstants_of_formed _ ((membersFormed_iff _).mpr formed.members)]
  | .interface ⟨_, _, _, body⟩, formed => by
    rw [kindFormed] at formed
    rw [kindConstants, exportConstants_of_formed body formed.2.2.2]
  | .value ⟨_, _, _, _, _, body⟩, formed => by
    rw [kindFormed] at formed
    rw [kindConstants, exportConstants_of_formed body formed.2]
  | .event ⟨_, _, _, _, _, body⟩, formed => by
    rw [kindFormed] at formed
    rw [kindConstants, exportConstants_of_formed body formed.2]
  | .valueBox d, formed => by
    rw [kindFormed] at formed
    rw [kindConstants, d.type.constants_of_formed formed.type]
  | .component ⟨_, _, _, body⟩, formed => by
    rw [kindFormed] at formed
    rw [kindConstants, exportConstants_of_formed body formed.2]
  | .home ⟨_, _, _, _, _, body⟩, formed => by
    rw [kindFormed] at formed
    rw [kindConstants, exportConstants_of_formed body formed.2]
  | .annotationDecl ⟨_, ms, ds⟩, formed => by
    rw [kindFormed] at formed
    rw [kindConstants, flatMap_constants (fun _ => AnnotationMember.constants_of_formed)
      formed.1.2.1, allConstants_of_formed ds formed.2, List.nil_append]
  | .native _, _ => by rw [kindConstants]
  | .forward _, _ => by rw [kindConstants]
  | .typeId _, _ => by rw [kindConstants]
  | .typePrefix _, _ => by rw [kindConstants]

theorem allConstants_of_formed : (ds : List Definition) → allFormed ds → allConstants ds = []
  | [], _ => by rw [allConstants]
  | d :: ds, formed => by
    rw [allFormed] at formed
    rw [allConstants, d.constants_of_formed formed.1, allConstants_of_formed ds formed.2,
      List.nil_append]

theorem exportConstants_of_formed : (es : List (Export Definition)) → exportsFormed es →
    exportConstants es = []
  | [], _ => by rw [exportConstants]
  | .definition d :: rest, formed => by
    rw [exportsFormed] at formed
    rw [exportConstants, d.constants_of_formed formed.1.1,
      exportConstants_of_formed rest formed.2, List.nil_append]
  | .stateMember m :: rest, formed => by
    rw [exportsFormed] at formed
    rw [exportConstants, memberConstants_of_formed _ ((membersFormed_iff _).mpr (by
      simpa using formed.1)), exportConstants_of_formed rest formed.2, List.nil_append]
  | .attribute a :: rest, formed => by
    rw [exportsFormed] at formed
    rw [exportConstants, a.constants_of_formed formed.1, exportConstants_of_formed rest formed.2,
      List.nil_append]
  | .operation o :: rest, formed => by
    rw [exportsFormed] at formed
    rw [exportConstants, o.constants_of_formed formed.1, exportConstants_of_formed rest formed.2,
      List.nil_append]
  | .initializer i :: rest, formed => by
    rw [exportsFormed] at formed
    rw [exportConstants, Initializer.constants, params_of_formed formed.1.params,
      exportConstants_of_formed rest formed.2, List.nil_append]
  | .port _ :: rest, formed => by
    rw [exportsFormed] at formed
    rw [exportConstants, exportConstants_of_formed rest formed.2]

end

theorem constants_of_formed {s : Specification} (formed : s.Formed) : s.constants = [] :=
  allConstants_of_formed _ ((allFormed_iff _).mpr formed.definitions)

/-! What stands in front of a place. -/

theorem allConstants_append (ds es : List Definition) :
    allConstants (ds ++ es) = allConstants ds ++ allConstants es := by
  induction ds with
  | nil => rfl
  | cons d ds ih => rw [List.cons_append, allConstants, allConstants, ih, List.append_assoc]

theorem exportConstants_append (xs ys : List (Export Definition)) :
    exportConstants (xs ++ ys) = exportConstants xs ++ exportConstants ys := by
  induction xs with
  | nil => rfl
  | cons x xs ih =>
    rw [List.cons_append]
    cases x <;> simp only [exportConstants, ih, List.append_assoc]

theorem exportConstants_map (ds : List Definition) :
    exportConstants (ds.map .definition) = allConstants ds := by
  induction ds with
  | nil => rfl
  | cons d ds ih => rw [List.map_cons, exportConstants, allConstants, ih]

theorem constants_close (owner : Owner) (body : List (Export Definition)) :
    kindConstants (owner.close body) = exportConstants body := by
  cases owner <;> rw [Owner.close, kindConstants]

/-- What stands around a place has no other values than the whole. -/
theorem constants_around (c : Site) (ds : List Definition) :
    (allConstants (c.fill [])).Sublist (allConstants (c.fill ds)) := by
  induction c with
  | hole => exact List.nil_sublist _
  | beside before inner after ih =>
    simp only [Site.fill, allConstants_append]
    exact ((List.Sublist.refl _).append ih).append (List.Sublist.refl _)
  | module as name inner span ih =>
    simp only [Site.fill, allConstants, Definition.constants, kindConstants, List.append_nil]
    exact (List.Sublist.refl _).append ih
  | body as owner before inner after span ih =>
    simp only [Site.fill, allConstants, Definition.constants, constants_close,
      exportConstants_append, exportConstants_map, List.append_nil]
    exact (List.Sublist.refl _).append
      (((List.Sublist.refl _).append ih).append (List.Sublist.refl _))
  | annotationDecl as name members inner span ih =>
    simp only [Site.fill, allConstants, Definition.constants, kindConstants, List.append_nil]
    exact (List.Sublist.refl _).append ((List.Sublist.refl _).append ih)

/-- What stands in front of a place has no other values than the whole. -/
theorem constants_front (c : Site) (ds : List Definition) :
    (allConstants (c.front.fill [])).Sublist (allConstants (c.fill ds)) := by
  induction c with
  | hole => exact List.nil_sublist _
  | beside before inner after ih =>
    simp only [Site.front, Site.fill, allConstants_append]
    exact ((List.Sublist.refl _).append ih).append (List.nil_sublist _)
  | module as name inner span ih =>
    simp only [Site.front, Site.fill, allConstants, Definition.constants, kindConstants,
      List.append_nil]
    exact (List.Sublist.refl _).append ih
  | body as owner before inner after span ih =>
    simp only [Site.front, Site.fill, allConstants, Definition.constants, constants_close,
      exportConstants_append, exportConstants_map, List.append_nil]
    exact (List.Sublist.refl _).append
      (((List.Sublist.refl _).append ih).trans (List.sublist_append_left _ _))
  | annotationDecl as name members inner span =>
    exact constants_around (.annotationDecl as name members inner span) ds

end Idl
