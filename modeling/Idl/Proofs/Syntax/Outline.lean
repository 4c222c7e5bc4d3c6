import Idl.Syntax.Definition

/-!
The nodes of a tree that count against the limit on nesting: definitions, exports, types and
operators of one operand. An outline keeps these and the constant expressions of a tree, and leaves
out all else. Main statements: `Outline.Within.depth_le` and `Specification.bounds`.
-/

set_option autoImplicit false

namespace Idl

namespace ConstExpr

/-- The most operators of one operand on the way from the root to a leaf. -/
def signs : ConstExpr → Nat
  | .binary _ left right _ _ => max left.signs right.signs
  | .unary _ operand _ _ => operand.signs + 1
  | .literal _ _ _ => 0
  | .name _ _ _ => 0

/-- The operators of two operands. -/
def operations : ConstExpr → Nat
  | .binary _ left right _ _ => left.operations + right.operations + 1
  | .unary _ operand _ _ => operand.operations
  | .literal _ _ _ => 0
  | .name _ _ _ => 0

/-- The most nodes on the way from the root to a leaf. -/
def height : ConstExpr → Nat
  | .binary _ left right _ _ => max left.height right.height + 1
  | .unary _ operand _ _ => operand.height + 1
  | .literal _ _ _ => 1
  | .name _ _ _ => 1

/-- The expression and all expressions in it. -/
def parts : ConstExpr → List ConstExpr
  | e@(.binary _ left right _ _) => e :: (left.parts ++ right.parts)
  | e@(.unary _ operand _ _) => e :: operand.parts
  | e@(.literal _ _ _) => [e]
  | e@(.name _ _ _) => [e]

/-- An expression is no smaller than those in it. -/
theorem parts_le (e : ConstExpr) :
    ∀ part ∈ e.parts, part.operations ≤ e.operations ∧ part.height ≤ e.height := by
  induction e with
  | binary op left right span value first second =>
    rw [parts, List.forall_mem_cons, List.forall_mem_append, operations, height]
    refine ⟨⟨Nat.le_refl _, Nat.le_refl _⟩, fun part mem => ?_, fun part mem => ?_⟩
    · have le := first part mem
      omega
    · have le := second part mem
      omega
  | unary op operand span value ih =>
    rw [parts, List.forall_mem_cons, operations, height]
    exact ⟨⟨Nat.le_refl _, Nat.le_refl _⟩, fun part mem =>
      ⟨(ih part mem).1, Nat.le_succ_of_le (ih part mem).2⟩⟩
  | literal | name =>
    exact fun _ mem => List.mem_singleton.mp mem ▸ ⟨Nat.le_refl _, Nat.le_refl _⟩

theorem height_le (e : ConstExpr) : e.height ≤ e.signs + e.operations + 1 := by
  induction e with
  | binary op left right span value first second =>
    rw [height, signs, operations]
    omega
  | unary op operand span value ih =>
    rw [height, signs, operations]
    omega
  | literal | name => exact Nat.le_refl _

end ConstExpr

inductive Outline
  | nothing
  | expr (e : ConstExpr)
  | beside (left right : Outline)
  /-- A definition, an export or a type, around what it holds. -/
  | level (inside : Outline)

namespace Outline

/-- The most nodes that count on the way from the root to a leaf. -/
def depth : Outline → Nat
  | .nothing => 0
  | .expr e => e.signs
  | .beside left right => max left.depth right.depth
  | .level inside => inside.depth + 1

/-- The expressions of a tree that stand in no other one. -/
def exprs : Outline → List ConstExpr
  | .nothing => []
  | .expr e => [e]
  | .beside left right => left.exprs ++ right.exprs
  | .level inside => inside.exprs

/-- Outlines side by side. -/
def all : List Outline → Outline := List.foldr beside nothing

/-- The outline needs `n` levels at most, and an expression has no more operators than there are
levels left where it stands. -/
def Within : Nat → Outline → Prop
  | _, .nothing => True
  | n, .expr e => e.signs ≤ n ∧ e.operations ≤ n
  | n, .beside left right => left.Within n ∧ right.Within n
  | 0, .level _ => False
  | n + 1, .level inside => inside.Within n

theorem within_map {α : Type} {f : α → Outline} {as : List α} {n : Nat} :
    (all (as.map f)).Within n ↔ ∀ a ∈ as, (f a).Within n := by
  induction as with
  | nil => simp [all, Within]
  | cons a as ih =>
    rw [List.forall_mem_cons, ← ih]
    rfl

namespace Within

variable {n : Nat} {o : Outline}

theorem depth_le (within : o.Within n) : o.depth ≤ n := by
  induction o generalizing n with
  | nothing => exact Nat.zero_le n
  | expr e => exact within.1
  | beside left right first second => exact Nat.max_le.mpr ⟨first within.1, second within.2⟩
  | level inside ih =>
    cases n with
    | zero => exact within.elim
    | succ n => exact Nat.succ_le_succ (ih within)

theorem bounds (within : o.Within n) :
    ∀ e ∈ o.exprs, e.signs ≤ n ∧ e.operations ≤ n := by
  induction o generalizing n with
  | nothing => exact nofun
  | expr e => exact fun _ mem => List.mem_singleton.mp mem ▸ within
  | beside left right first second =>
    exact List.forall_mem_append.mpr ⟨first within.1, second within.2⟩
  | level inside ih =>
    cases n with
    | zero => exact within.elim
    | succ n =>
      intro e mem
      obtain ⟨signs, operations⟩ := ih within e mem
      exact ⟨Nat.le_succ_of_le signs, Nat.le_succ_of_le operations⟩

/-- Both bounds on operators together bound what stands below a level. -/
theorem height_le (within : (level o).Within n) : ∀ e ∈ o.exprs, e.height ≤ 2 * n := by
  cases n with
  | zero => exact within.elim
  | succ n =>
    intro e mem
    obtain ⟨signs, operations⟩ := bounds (n := n) within e mem
    have height := e.height_le
    omega

end Within

end Outline

/-! Expressions, annotations and declarators. -/

section

open Outline

def boundOutline (bound : Option ConstExpr) : Outline := bound.elim nothing expr

def AnnotationArgs.outline : AnnotationArgs → Outline
  | .none => nothing
  | .single value => expr value
  | .named params => all (params.map fun p => expr p.2)

def AnnotationUse.outline (a : AnnotationUse) : Outline := a.args.outline

def usesOutline (uses : List AnnotationUse) : Outline := all (uses.map AnnotationUse.outline)

def Declarator.outline (d : Declarator) : Outline := all (d.dims.map expr)

def declaratorsOutline (ds : List Declarator) : Outline := all (ds.map Declarator.outline)

/-! Types. -/

def enumeratorsOutline (vs : List Enumerator) : Outline :=
  all (vs.map fun v => usesOutline v.annotations)

def Bitfield.outline (f : Bitfield) : Outline := beside (usesOutline f.annotations) (expr f.width)

def BitsetType.outline (t : BitsetType) : Outline := all (t.bitfields.map Bitfield.outline)

def CaseLabel.outline : CaseLabel → Outline
  | .value e => expr e
  | .default _ => nothing

mutual

def TypeSpec.outline : TypeSpec → Outline
  | .primitive _ => level nothing
  | .named _ => level nothing
  | .sequence element bound => level (beside element.outline (boundOutline bound))
  | .set element bound => level (beside element.outline (boundOutline bound))
  | .map key value bound =>
    level (beside key.outline (beside value.outline (boundOutline bound)))
  | .string bound => level (boundOutline bound)
  | .wstring bound => level (boundOutline bound)
  | .fixed none => level nothing
  | .fixed (some (digits, scale)) => level (beside (expr digits) (expr scale))
  | .struct ⟨_, _, fields, _⟩ => level (memberOutlines fields)
  | .union ⟨_, ⟨uses, type, _⟩, cases, _⟩ =>
    level (beside (usesOutline uses) (beside type.outline (caseOutlines cases)))
  | .enum t => level (enumeratorsOutline t.enumerators)
  | .bitset t => level t.outline
  | .bitmask t => level (enumeratorsOutline t.values)

def memberOutlines : List (Member TypeSpec) → Outline
  | [] => nothing
  | ⟨uses, type, ds, _⟩ :: rest =>
    beside (beside (usesOutline uses) (beside type.outline (declaratorsOutline ds)))
      (memberOutlines rest)

def caseOutlines : List (UnionCase TypeSpec) → Outline
  | [] => nothing
  | ⟨labels, uses, type, d, _⟩ :: rest =>
    beside (beside (all (labels.map CaseLabel.outline))
      (beside (usesOutline uses) (beside type.outline d.outline))) (caseOutlines rest)

end

def Member.outline (m : Member TypeSpec) : Outline :=
  beside (usesOutline m.annotations) (beside m.type.outline (declaratorsOutline m.declarators))

def UnionCase.outline (c : UnionCase TypeSpec) : Outline :=
  beside (all (c.labels.map CaseLabel.outline))
    (beside (usesOutline c.annotations) (beside c.type.outline c.declarator.outline))

def UnionType.outline (t : UnionType TypeSpec) : Outline :=
  beside (usesOutline t.discriminant.annotations)
    (beside t.discriminant.type.outline (caseOutlines t.cases))

/-! Definitions. -/

def Typedef.outline (d : Typedef) : Outline :=
  beside d.type.outline (declaratorsOutline d.declarators)

def ConstDecl.outline (d : ConstDecl) : Outline := beside d.type.outline (expr d.value)

def Param.outline (p : Param) : Outline := beside (usesOutline p.annotations) p.type.outline

def paramsOutline (ps : List Param) : Outline := all (ps.map Param.outline)

def Attribute.outline (a : Attribute) : Outline :=
  beside (usesOutline a.annotations) a.type.outline

def Operation.outline (o : Operation) : Outline :=
  beside (usesOutline o.annotations)
    (beside (o.result.elim nothing TypeSpec.outline) (paramsOutline o.params))

def AnnotationMember.outline (m : AnnotationMember) : Outline :=
  beside m.type.outline (boundOutline m.default)

mutual

def Definition.outline : Definition → Outline
  | ⟨uses, kind, _⟩ => level (beside (usesOutline uses) (kindOutline kind))

def kindOutline : DefinitionKind Definition → Outline
  | .module ⟨_, ds⟩ => definitionOutlines ds
  | .struct t => memberOutlines t.members
  | .union t => t.outline
  | .enum t => enumeratorsOutline t.enumerators
  | .bitset t => t.outline
  | .bitmask t => enumeratorsOutline t.values
  | .typedef d => d.outline
  | .const d => d.outline
  | .exception d => memberOutlines d.members
  | .native _ => nothing
  | .forward _ => nothing
  | .interface ⟨_, _, _, body⟩ => exportOutlines body
  | .value ⟨_, _, _, _, _, body⟩ => exportOutlines body
  | .event ⟨_, _, _, _, _, body⟩ => exportOutlines body
  | .valueBox d => d.type.outline
  | .component ⟨_, _, _, body⟩ => exportOutlines body
  | .home ⟨_, _, _, _, _, body⟩ => exportOutlines body
  | .typeId _ => nothing
  | .typePrefix _ => nothing
  | .annotationDecl ⟨_, members, ds⟩ =>
    beside (all (members.map AnnotationMember.outline)) (definitionOutlines ds)

def definitionOutlines : List Definition → Outline
  | [] => nothing
  | d :: ds => beside d.outline (definitionOutlines ds)

/-- A definition counts once as an export. -/
def exportOutlines : List (Export Definition) → Outline
  | [] => nothing
  | .definition d :: rest => beside d.outline (exportOutlines rest)
  | .attribute a :: rest => beside (level a.outline) (exportOutlines rest)
  | .operation o :: rest => beside (level o.outline) (exportOutlines rest)
  | .stateMember m :: rest => beside (level m.member.outline) (exportOutlines rest)
  | .initializer i :: rest => beside (level (paramsOutline i.params)) (exportOutlines rest)
  | .port _ :: rest => beside (level nothing) (exportOutlines rest)

end

def Specification.outline (unit : Specification) : Outline := definitionOutlines unit.definitions

/-- An export with the level that it counts for. -/
def Export.outline : Export Definition → Outline
  | .definition d => d.outline
  | .attribute a => level a.outline
  | .operation o => level o.outline
  | .stateMember m => level m.member.outline
  | .initializer i => level (paramsOutline i.params)
  | .port _ => level nothing

end

/-! Lists. -/

section

variable {n : Nat}

theorem within_memberOutlines {ms : List (Member TypeSpec)} :
    (memberOutlines ms).Within n ↔ ∀ m ∈ ms, m.outline.Within n := by
  induction ms with
  | nil => simp [memberOutlines, Outline.Within]
  | cons m ms ih =>
    rw [List.forall_mem_cons, ← ih, memberOutlines]
    rfl

theorem within_caseOutlines {cs : List (UnionCase TypeSpec)} :
    (caseOutlines cs).Within n ↔ ∀ c ∈ cs, c.outline.Within n := by
  induction cs with
  | nil => simp [caseOutlines, Outline.Within]
  | cons c cs ih =>
    rw [List.forall_mem_cons, ← ih, caseOutlines]
    rfl

theorem within_definitionOutlines {ds : List Definition} :
    (definitionOutlines ds).Within n ↔ ∀ d ∈ ds, d.outline.Within n := by
  induction ds with
  | nil => simp [definitionOutlines, Outline.Within]
  | cons d ds ih =>
    rw [List.forall_mem_cons, ← ih, definitionOutlines]
    rfl

theorem within_exportOutlines {es : List (Export Definition)} :
    (exportOutlines es).Within n ↔ ∀ e ∈ es, e.outline.Within n := by
  induction es with
  | nil => simp [exportOutlines, Outline.Within]
  | cons e es ih =>
    rw [List.forall_mem_cons, ← ih]
    cases e <;> rw [exportOutlines] <;> rfl

theorem mem_exprs_definitionOutlines {ds : List Definition} {e : ConstExpr} :
    e ∈ (definitionOutlines ds).exprs ↔ ∃ d ∈ ds, e ∈ d.outline.exprs := by
  induction ds with
  | nil => simp [definitionOutlines, Outline.exprs]
  | cons d ds ih =>
    rw [definitionOutlines, Outline.exprs, List.mem_append, ih]
    simp

end

/-- A unit that needs no more than `n` levels is no deeper, and its expressions are no larger. -/
theorem Specification.bounds {unit : Specification} {n : Nat}
    (within : ∀ d ∈ unit.definitions, d.outline.Within n) :
    unit.outline.depth ≤ n ∧
      ∀ e ∈ unit.outline.exprs, ∀ part ∈ e.parts, part.operations ≤ n ∧ part.height ≤ 2 * n := by
  have whole : unit.outline.Within n := within_definitionOutlines.mpr within
  refine ⟨whole.depth_le, fun e mem part inside => ?_⟩
  obtain ⟨operations, height⟩ := e.parts_le part inside
  obtain ⟨⟨uses, kind, span⟩, defined, among⟩ := mem_exprs_definitionOutlines.mp mem
  have level := within _ defined
  rw [Definition.outline] at level among
  exact ⟨Nat.le_trans operations (whole.bounds e mem).2,
    Nat.le_trans height (level.height_le e among)⟩

end Idl
