import Idl.Syntax.Definition
import Mathlib.Data.List.Basic

/-!
Trees of spans. A tree is nested if every span contains what is stored inside and what is stored in
one row stands in the order of the row, without an overlap. The spans of a syntax tree are such a
tree: a construct with a span is a node, and one without adds what it holds to the row of the
construct around it. The parts of a construct stand in a row in the order in which they are written.
The members and the definitions of an annotation are two rows, as they are written mixed. Main
statements: `SpanTree.Nested.inside` and `Arranged.replace`.
-/

set_option autoImplicit false

namespace Idl

/-- The first span stops where the second one starts, or in front of that. -/
def Span.Before (a b : Span) : Prop := a.stop ≤ b.offset

/-- The second span neither starts nor stops in front of the first one. -/
structure Span.UpTo (a b : Span) : Prop where
  offset : a.offset ≤ b.offset
  stop : a.stop ≤ b.stop

/-- The first span covers the second one. -/
structure Span.Contains (a b : Span) : Prop where
  offset : a.offset ≤ b.offset
  stop : b.stop ≤ a.stop

namespace Span

theorem offset_le_stop (a : Span) : a.offset ≤ a.stop := Nat.le_add_right _ _

variable {a b c : Span}

theorem UpTo.refl (a : Span) : a.UpTo a := ⟨Nat.le_refl _, Nat.le_refl _⟩

theorem UpTo.trans (first : a.UpTo b) (second : b.UpTo c) : a.UpTo c :=
  ⟨Nat.le_trans first.offset second.offset, Nat.le_trans first.stop second.stop⟩

theorem Before.upTo (before : a.Before b) : a.UpTo b :=
  ⟨Nat.le_trans a.offset_le_stop before, Nat.le_trans before b.offset_le_stop⟩

theorem Contains.refl (a : Span) : a.Contains a := ⟨Nat.le_refl _, Nat.le_refl _⟩

theorem Contains.trans (outer : a.Contains b) (inner : b.Contains c) : a.Contains c :=
  ⟨Nat.le_trans outer.offset inner.offset, Nat.le_trans inner.stop outer.stop⟩

theorem UpTo.offset_join (upTo : a.UpTo b) : (a.join b).offset = a.offset := by
  rw [Span.offset_join, Nat.min_eq_left upTo.offset]

theorem UpTo.stop_join (upTo : a.UpTo b) : (a.join b).stop = b.stop := by
  rw [Span.stop_join, Nat.max_eq_right upTo.stop]

end Span

/-- A span, and rows of what is stored inside. -/
inductive SpanTree
  | node (span : Span) (rows : List (List SpanTree))

namespace SpanTree

def span : SpanTree → Span
  | node span _ => span

/-- A span with nothing inside. -/
def leaf (span : Span) : SpanTree := node span []

@[simp] theorem span_node (a : Span) (rows : List (List SpanTree)) : (node a rows).span = a := rfl

/-- At every node the span contains those stored inside, and those of one row follow each other. -/
inductive Nested : SpanTree → Prop
  | node {a : Span} {rows : List (List SpanTree)}
      (nested : ∀ row ∈ rows, ∀ x ∈ row, Nested x)
      (contains : ∀ row ∈ rows, ∀ x ∈ row, a.Contains x.span)
      (ordered : ∀ row ∈ rows, row.Pairwise fun x y => x.span.Before y.span) :
      Nested (node a rows)

/-- The first tree is the second one, or is stored in it at any depth. -/
inductive Inside (x : SpanTree) : SpanTree → Prop
  | self : Inside x x
  | deeper {a : Span} {rows : List (List SpanTree)} {row : List SpanTree} {y : SpanTree}
      (mem : row ∈ rows) (child : y ∈ row) (inside : Inside x y) : Inside x (node a rows)

variable {x y : SpanTree}

/-- What is stored inside is contained, and nested as well. -/
theorem Nested.inside (nested : y.Nested) (inside : x.Inside y) :
    x.Nested ∧ y.span.Contains x.span := by
  induction inside with
  | self => exact ⟨nested, .refl _⟩
  | deeper mem child inside ih =>
    cases nested with
    | node below contains ordered =>
      obtain ⟨nested, within⟩ := ih (below _ mem _ child)
      exact ⟨nested, (contains _ mem _ child).trans within⟩

end SpanTree

/-- A row of nested trees between two offsets, in order and without an overlap. -/
structure Arranged (lo hi : Nat) (row : List SpanTree) : Prop where
  nested : ∀ x ∈ row, x.Nested
  within : ∀ x ∈ row, lo ≤ x.span.offset ∧ x.span.stop ≤ hi
  ordered : row.Pairwise fun x y => x.span.Before y.span

namespace Arranged

variable {lo mid hi : Nat} {row xs ys : List SpanTree} {x y : SpanTree}

theorem nil : Arranged lo hi [] := ⟨List.forall_mem_nil _, List.forall_mem_nil _, .nil⟩

theorem single (nested : x.Nested) (start : lo ≤ x.span.offset) (stop : x.span.stop ≤ hi) :
    Arranged lo hi [x] := by
  refine ⟨fun y mem => ?_, fun y mem => ?_, List.pairwise_singleton _ _⟩
  · rwa [List.mem_singleton.mp mem]
  · rw [List.mem_singleton.mp mem]
    exact ⟨start, stop⟩

theorem sublist (arranged : Arranged lo hi row) (fewer : xs.Sublist row) : Arranged lo hi xs :=
  ⟨fun x mem => arranged.nested x (fewer.subset mem),
    fun x mem => arranged.within x (fewer.subset mem), arranged.ordered.sublist fewer⟩

theorem widen {lo' hi' : Nat} (arranged : Arranged lo hi row) (start : lo' ≤ lo)
    (stop : hi ≤ hi') : Arranged lo' hi' row :=
  { arranged with within := fun x mem =>
      ⟨Nat.le_trans start (arranged.within x mem).1, Nat.le_trans (arranged.within x mem).2 stop⟩ }

/-- What ends where the other begins. -/
theorem append {lo' : Nat} (first : Arranged lo mid xs) (second : Arranged lo' hi ys)
    (behind : mid ≤ lo') (start : lo ≤ lo') (stop : mid ≤ hi) : Arranged lo hi (xs ++ ys) where
  nested := List.forall_mem_append.mpr ⟨first.nested, second.nested⟩
  within := List.forall_mem_append.mpr
    ⟨(first.widen (Nat.le_refl _) stop).within, (second.widen start (Nat.le_refl _)).within⟩
  ordered := List.pairwise_append.mpr ⟨first.ordered, second.ordered, fun x left y right =>
    Nat.le_trans (first.within x left).2 (Nat.le_trans behind (second.within y right).1)⟩

/-- Rows under one span. -/
theorem close {a : Span} {rows : List (List SpanTree)}
    (all : ∀ row ∈ rows, Arranged a.offset a.stop row) : (SpanTree.node a rows).Nested :=
  .node (fun row mem => (all row mem).nested)
    (fun row mem x child => ⟨((all row mem).within x child).1, ((all row mem).within x child).2⟩)
    (fun row mem => (all row mem).ordered)

theorem nested_leaf (a : Span) : (SpanTree.leaf a).Nested := close (List.forall_mem_nil _)

/-- A tree in place of others, which neither starts before all of these nor stops behind them. -/
theorem replace {z : SpanTree} (inner : List SpanTree)
    (arranged : Arranged lo hi (xs ++ (inner ++ ys))) (nested : z.Nested) (first : x ∈ inner)
    (start : x.span.offset ≤ z.span.offset) (last : y ∈ inner) (stop : z.span.stop ≤ y.span.stop) :
    Arranged lo hi (xs ++ z :: ys) := by
  have ordered := arranged.ordered
  simp only [List.pairwise_append, List.mem_append] at ordered
  obtain ⟨front, ⟨-, back, behind⟩, across⟩ := ordered
  have trees := arranged.nested
  have within := arranged.within
  simp only [List.forall_mem_append] at trees within
  refine ⟨List.forall_mem_append.mpr ⟨trees.1, List.forall_mem_cons.mpr ⟨nested, trees.2.2⟩⟩,
    List.forall_mem_append.mpr ⟨within.1, List.forall_mem_cons.mpr ⟨?_, within.2.2⟩⟩,
    List.pairwise_append.mpr ⟨front, List.pairwise_cons.mpr ⟨fun w mem => ?_, back⟩,
      fun w mem => List.forall_mem_cons.mpr ⟨?_, fun v mem' => across w mem v (.inr mem')⟩⟩⟩
  · exact ⟨Nat.le_trans (within.2.1 x first).1 start, Nat.le_trans stop (within.2.1 y last).2⟩
  · exact Nat.le_trans stop (behind y last w mem)
  · exact Nat.le_trans (across w mem x (.inl first)) start

/-- Two neighbours under a span that covers them. -/
theorem merge (arranged : Arranged lo hi (xs ++ x :: y :: ys)) (rows : List (List SpanTree))
    (inside : ∀ row ∈ rows, row.Sublist [x, y]) :
    Arranged lo hi (xs ++ SpanTree.node (x.span.join y.span) rows :: ys) := by
  have both : Arranged lo hi [x, y] :=
    arranged.sublist ((List.sublist_append_left [x, y] ys).trans (List.sublist_append_right xs _))
  have upTo : x.span.UpTo y.span := (List.pairwise_pair.mp both.ordered).upTo
  have between : Arranged (x.span.join y.span).offset (x.span.join y.span).stop [x, y] := by
    rw [upTo.offset_join, upTo.stop_join]
    refine { both with within := ?_ }
    simp only [List.forall_mem_cons]
    exact ⟨⟨Nat.le_refl _, upTo.stop⟩, ⟨upTo.offset, Nat.le_refl _⟩, List.forall_mem_nil _⟩
  exact arranged.replace [x, y] (close fun row mem => between.sublist (inside row mem))
    List.mem_cons_self (Nat.le_of_eq upTo.offset_join.symm)
    (List.mem_cons_of_mem _ List.mem_cons_self) (Nat.le_of_eq upTo.stop_join)

/-- The last one under a span that is its own. -/
theorem wrap (arranged : Arranged lo hi (xs ++ [x])) :
    Arranged lo hi (xs ++ [SpanTree.node x.span [[x]]]) := by
  have nested : x.Nested := arranged.nested x (List.mem_append_right _ List.mem_cons_self)
  exact arranged.replace [x] (close (List.forall_mem_singleton.mpr
      (single nested (Nat.le_refl _) (Nat.le_refl _))))
    List.mem_cons_self (Nat.le_refl _) List.mem_cons_self (Nat.le_refl _)

end Arranged

/-! Names and expressions. -/

def Ident.tree (i : Ident) : SpanTree := .leaf i.span

def ScopedName.tree (n : ScopedName) : SpanTree := .node n.span [n.segments.map Ident.tree]

def ConstExpr.tree : ConstExpr → SpanTree
  | .binary _ left right span _ => .node span [[left.tree, right.tree]]
  | .unary _ operand span _ => .node span [[operand.tree]]
  | .literal _ span _ => .leaf span
  | .name n span _ => .node span [[n.tree]]

@[simp] theorem ConstExpr.span_tree (e : ConstExpr) : e.tree.span = e.span := by cases e <;> rfl

/-- An expression that may be there. -/
def boundRow (e : Option ConstExpr) : List SpanTree := e.toList.map ConstExpr.tree

/-! Annotations and declarators. -/

def AnnotationArgs.row : AnnotationArgs → List SpanTree
  | .none => []
  | .single e => [e.tree]
  | .named params => params.flatMap fun p => [p.1.tree, p.2.tree]

def AnnotationUse.tree (a : AnnotationUse) : SpanTree := .node a.span [a.name.tree :: a.args.row]

def annotationRow (uses : List AnnotationUse) : List SpanTree := uses.map AnnotationUse.tree

def Declarator.row (d : Declarator) : List SpanTree := d.name.tree :: d.dims.map ConstExpr.tree

/-! Types. -/

def baseRow (base : Option NamedType) : List SpanTree := base.toList.map (·.name.tree)

def Enumerator.row (v : Enumerator) : List SpanTree := annotationRow v.annotations ++ [v.name.tree]

def EnumType.tree (t : EnumType) : SpanTree :=
  .node t.span [t.name.tree :: t.enumerators.flatMap Enumerator.row]

def BitmaskType.tree (t : BitmaskType) : SpanTree :=
  .node t.span [t.name.tree :: t.values.flatMap Enumerator.row]

def Bitfield.tree (f : Bitfield) : SpanTree :=
  .node f.span [annotationRow f.annotations ++ f.width.tree :: f.names.map Ident.tree]

def BitsetType.tree (t : BitsetType) : SpanTree :=
  .node t.span [t.name.tree :: baseRow t.base ++ t.bitfields.map Bitfield.tree]

def CaseLabel.tree : CaseLabel → SpanTree
  | .value e => e.tree
  | .default span => .leaf span

mutual

def TypeSpec.row : TypeSpec → List SpanTree
  | .primitive _ => []
  | .named type => [type.name.tree]
  | .sequence element bound => element.row ++ boundRow bound
  | .set element bound => element.row ++ boundRow bound
  | .map key value bound => key.row ++ value.row ++ boundRow bound
  | .string bound => boundRow bound
  | .wstring bound => boundRow bound
  | .fixed none => []
  | .fixed (some (digits, scale)) => [digits.tree, scale.tree]
  | .struct ⟨name, base, members, span⟩ =>
    [.node span [name.tree :: baseRow base ++ memberRow members]]
  | .union ⟨name, ⟨uses, type, switch⟩, cases, span⟩ =>
    [.node span [name.tree :: .node switch [annotationRow uses ++ type.row] :: caseRow cases]]
  | .enum type => [type.tree]
  | .bitset type => [type.tree]
  | .bitmask type => [type.tree]

def memberRow : List (Member TypeSpec) → List SpanTree
  | [] => []
  | ⟨uses, type, declarators, span⟩ :: rest =>
    .node span [annotationRow uses ++ type.row ++ declarators.flatMap Declarator.row] ::
      memberRow rest

def caseRow : List (UnionCase TypeSpec) → List SpanTree
  | [] => []
  | ⟨labels, uses, type, declarator, span⟩ :: rest =>
    .node span [labels.map CaseLabel.tree ++ annotationRow uses ++ type.row ++ declarator.row] ::
      caseRow rest

end

def Member.tree (m : Member TypeSpec) : SpanTree :=
  .node m.span [annotationRow m.annotations ++ m.type.row ++ m.declarators.flatMap Declarator.row]

def SwitchType.tree (t : SwitchType TypeSpec) : SpanTree :=
  .node t.span [annotationRow t.annotations ++ t.type.row]

def UnionCase.tree (c : UnionCase TypeSpec) : SpanTree :=
  .node c.span
    [c.labels.map CaseLabel.tree ++ annotationRow c.annotations ++ c.type.row ++ c.declarator.row]

theorem TypeSpec.row_named (type : NamedType) : (TypeSpec.named type).row = [type.name.tree] := by
  rw [TypeSpec.row]

theorem memberRow_eq : memberRow = List.map Member.tree := by
  funext ms
  induction ms with
  | nil => rw [memberRow, List.map_nil]
  | cons m ms ih => rw [memberRow, ih, List.map_cons, Member.tree]

theorem caseRow_eq : caseRow = List.map UnionCase.tree := by
  funext cs
  induction cs with
  | nil => rw [caseRow, List.map_nil]
  | cons c cs ih => rw [caseRow, ih, List.map_cons, UnionCase.tree]

/-! Exports. -/

def nameRow (names : List ScopedName) : List SpanTree := names.map ScopedName.tree

/-- An attribute without its annotations. -/
def Attribute.tree (a : Attribute) : SpanTree :=
  .node a.span [a.type.row ++ a.names.map Ident.tree ++ nameRow a.getRaises ++ nameRow a.setRaises]

/-- The annotations of an attribute stand in front of its span. -/
def Attribute.row (a : Attribute) : List SpanTree := annotationRow a.annotations ++ [a.tree]

def Param.row (p : Param) : List SpanTree :=
  annotationRow p.annotations ++ p.type.row ++ [p.name.tree]

def resultRow : Option TypeSpec → List SpanTree
  | none => []
  | some type => type.row

def Operation.tree (o : Operation) : SpanTree :=
  .node o.span [annotationRow o.annotations ++ resultRow o.result ++ o.name.tree ::
    o.params.flatMap Param.row ++ nameRow o.raises]

def Initializer.tree (i : Initializer) : SpanTree :=
  .node i.span [i.name.tree :: i.params.flatMap Param.row ++ nameRow i.raises]

def Port.tree (p : Port) : SpanTree := .node p.span [[p.type.tree, p.name.tree]]

/-! Definitions. -/

def Typedef.row (d : Typedef) : List SpanTree := d.type.row ++ d.declarators.flatMap Declarator.row

def ConstDecl.row (d : ConstDecl) : List SpanTree := d.type.row ++ [d.name.tree, d.value.tree]

def AnnotationMember.row (m : AnnotationMember) : List SpanTree :=
  m.type.row ++ m.name.tree :: boundRow m.default

mutual

def Definition.tree : Definition → SpanTree
  | ⟨uses, kind, span⟩ => .node span ((kindRows kind).map (annotationRow uses ++ ·))

def kindRows : DefinitionKind Definition → List (List SpanTree)
  | .module ⟨name, ds⟩ => [name.tree :: definitionRow ds]
  | .struct type => [(TypeSpec.struct type).row]
  | .union type => [(TypeSpec.union type).row]
  | .enum type => [[type.tree]]
  | .bitset type => [[type.tree]]
  | .bitmask type => [[type.tree]]
  | .typedef d => [d.row]
  | .const d => [d.row]
  | .exception d => [d.name.tree :: memberRow d.members]
  | .native name => [[name.tree]]
  | .forward d => [[d.name.tree]]
  | .interface ⟨name, _, bases, body⟩ => [name.tree :: nameRow bases ++ exportRow body]
  | .value ⟨name, _, _, bases, supports, body⟩ =>
    [name.tree :: nameRow bases ++ nameRow supports ++ exportRow body]
  | .event ⟨name, _, _, bases, supports, body⟩ =>
    [name.tree :: nameRow bases ++ nameRow supports ++ exportRow body]
  | .valueBox d => [d.name.tree :: d.type.row]
  | .component ⟨name, base, supports, body⟩ =>
    [name.tree :: nameRow base.toList ++ nameRow supports ++ exportRow body]
  | .home ⟨name, base, supports, manages, primaryKey, body⟩ =>
    [name.tree :: nameRow base.toList ++ nameRow supports ++ manages.tree ::
      nameRow primaryKey.toList ++ exportRow body]
  | .typeId d => [[d.target.tree]]
  | .typePrefix d => [[d.target.tree]]
  | .annotationDecl ⟨name, members, ds⟩ =>
    [name.tree :: members.flatMap AnnotationMember.row, name.tree :: definitionRow ds]

def definitionRow : List Definition → List SpanTree
  | [] => []
  | d :: ds => d.tree :: definitionRow ds

def exportRow : List (Export Definition) → List SpanTree
  | [] => []
  | .definition d :: rest => d.tree :: exportRow rest
  | .attribute a :: rest => a.row ++ exportRow rest
  | .operation o :: rest => o.tree :: exportRow rest
  | .stateMember m :: rest => m.member.tree :: exportRow rest
  | .initializer i :: rest => i.tree :: exportRow rest
  | .port p :: rest => p.tree :: exportRow rest

end

def Export.row : Export Definition → List SpanTree
  | .definition d => [d.tree]
  | .attribute a => a.row
  | .operation o => [o.tree]
  | .stateMember m => [m.member.tree]
  | .initializer i => [i.tree]
  | .port p => [p.tree]

theorem kindRows_forward (d : ForwardDecl) : kindRows (.forward d) = [[d.name.tree]] := by
  rw [kindRows]

theorem definitionRow_eq : definitionRow = List.map Definition.tree := by
  funext ds
  induction ds with
  | nil => rw [definitionRow, List.map_nil]
  | cons d ds ih => rw [definitionRow, ih, List.map_cons]

theorem exportRow_eq : exportRow = List.flatMap Export.row := by
  funext es
  induction es with
  | nil => rw [exportRow, List.flatMap_nil]
  | cons e es ih =>
    rw [List.flatMap_cons, ← ih]
    cases e <;> (rw [exportRow]; rfl)

/-! Units. -/

def ImportTarget.row : ImportTarget → List SpanTree
  | .scope name => [name.tree]
  | .file _ => []

def Import.tree (i : Import) : SpanTree := .node i.span [i.target.row]

def Specification.row (s : Specification) : List SpanTree :=
  s.imports.map Import.tree ++ definitionRow s.definitions

end Idl
