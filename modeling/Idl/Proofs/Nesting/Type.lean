import Idl.Grammar.Type
import Idl.Proofs.Nesting.Counters

/-!
Expressions, annotations and types are read as readers that count read them. Main statements:
`counts_constExpr` and `counts_typeSpec`.
-/

set_option autoImplicit false

namespace Idl.Grammar

variable {α : Type} {n : Nat} {outside : Bool}

/-! Expressions. -/

/-- The operator that was found, and the operand after it. -/
def operatorFound (l : Level) (operand : Parser ConstExpr) :
    Option (BinaryOp × Nat) → Parser (BinaryOp × ConstExpr)
  | none => expected "operator"
  | some (op, tokens) => do
    let op ← operator l op tokens
    return (op, ← operand)

theorem operatorStep_eq (l : Level) (level : OperatorLevel) (operand : Parser ConstExpr) :
    operatorStep l level operand = fun s => operatorFound l operand (level s) s := by
  funext s
  rw [operatorStep]
  cases level s <;> rfl

section

variable {p : Level → Parser ConstExpr} (operand : Counts n outside p)

include operand

theorem counts_operatorFound (found : Option (BinaryOp × Nat)) :
    Counts n outside fun l => operatorFound l (p l) found := by
  cases found with
  | none => exact .plain _
  | some found => exact (Counts.operator _ _).bind fun _ => operand.bind fun _ => .plain _

theorem counts_operatorStep (level : OperatorLevel) :
    Counts n outside fun l => operatorStep l level (p l) := by
  simp only [operatorStep_eq]
  exact .look level (counts_operatorFound operand)

theorem counts_chain (level : OperatorLevel) : Counts n outside fun l => chain l (p l) level :=
  operand.bind fun _ => ((counts_operatorStep operand level).many _).bind fun _ => .plain _

theorem counts_levels (levels : List OperatorLevel) :
    Counts n outside fun l => levels.foldl (chain l) (p l) := by
  induction levels generalizing p with
  | nil => exact operand
  | cons level levels ih => exact ih (counts_chain operand level)

/-- Operators of the `m` tightest levels between operands. -/
theorem counts_tightest (m : Nat) :
    Counts n outside fun l => ((operatorLevels l.inTemplate).take m).foldl (chain l) (p l) :=
  .within fun b => counts_levels operand ((operatorLevels b).take m)

theorem counts_binaryExpr : Counts n outside fun l => binaryExpr l (p l) :=
  .within fun b => counts_levels operand (operatorLevels b)

end

theorem counts_operandWith {inner whole : Level → Parser ConstExpr}
    (unary : Counts n outside inner) (parens : Counts n outside whole) :
    Counts n outside fun l => operandWith (inner l) (whole l) := by
  refine .behind fun next => ?_
  cases unaryOp? next with
  | some op => exact .behind fun _ => unary.bind fun _ => .plain _
  | none =>
    cases next with
    | punct mark =>
      cases mark with
      | leftParen => exact .behind fun _ => parens.bind fun _ => .plain _
      | _ => exact .plain _
    | keyword word => cases word <;> exact .plain _
    | _ => exact .plain _

/-- An operand where a reader may go as deep as `l` says. -/
abbrev operandAt (l : Level) : Parser ConstExpr := operand l.limit l.left l.inTemplate

/-- An operator in front has its operand one level down. So have parentheses their expression,
which stands in no template arguments. -/
theorem operandAt_eq : operandAt = fun l => operandWith (down operandAt l)
    (down (fun l => binaryExpr l (operandAt l)) { l with inTemplate := false }) := by
  funext ⟨limit, left, inTemplate⟩
  cases left <;> rfl

theorem counts_operandAt : Counts n outside operandAt := by
  induction n generalizing outside with
  | zero =>
    rw [operandAt_eq]
    exact counts_operandWith .atLimit (Counts.cleared (b := false) .atLimit)
  | succ n ih =>
    rw [operandAt_eq]
    exact counts_operandWith ih.nested (Counts.cleared (b := false) (counts_binaryExpr ih).nested)

theorem counts_constExpr : Counts n outside constExpr :=
  .behind fun _ => counts_binaryExpr counts_operandAt

/-! Annotations and declarators. -/

theorem counts_annotationArgs : Counts n outside annotationArgs :=
  .behind fun _ => .branch (.plain _) (.behind fun _ => .branch
    ((Counts.commaList (.behind fun _ => .behind fun _ => counts_constExpr.bind fun _ =>
      .plain _)).bind fun _ => .plain _)
    (counts_constExpr.bind fun _ => .plain _))

theorem counts_annotationUse : Counts n outside annotationUse :=
  .behind fun _ => .behind fun _ => .behind fun _ => .branch
    ((Counts.cleared (b := false) counts_annotationArgs).bind fun _ => .plain _) (.plain _)

theorem counts_annotations : Counts n outside annotations := counts_annotationUse.many _

theorem counts_declarator : Counts n outside declarator :=
  .behind fun _ => (Counts.many _ (.behind fun _ => counts_constExpr.bind fun _ =>
    .plain _)).bind fun _ => .plain _

theorem counts_declarators : Counts n outside declarators := counts_declarator.commaList

/-! Types that hold no others. -/

theorem counts_angled {args : Level → Parser α} (inner : Counts n false args) :
    Counts n outside fun l => angled l args :=
  .behind fun _ => inner.templated.bind fun _ => .plain _

theorem counts_enumerators : Counts n outside enumerators :=
  .behind fun _ => (Counts.commaList (counts_annotations.bind fun _ => .plain _)).bind fun _ =>
    .plain _

theorem counts_enumType : Counts n outside enumType :=
  .behind fun _ => .behind fun _ => counts_enumerators.bind fun _ => .plain _

theorem counts_bitmaskType : Counts n outside bitmaskType :=
  .behind fun _ => .behind fun _ => counts_enumerators.bind fun _ => .plain _

theorem counts_bitfieldArgs : Counts n outside bitfieldArgs :=
  counts_constExpr.bind fun _ => .plain _

theorem counts_bitfield : Counts n outside bitfield :=
  .behind fun _ => counts_annotations.bind fun _ => .behind fun _ =>
    (counts_angled counts_bitfieldArgs).bind fun _ => .plain _

theorem counts_bitsetType : Counts n outside bitsetType :=
  .behind fun _ => .behind fun _ => .behind fun _ => .behind fun _ =>
    (counts_bitfield.many _).bind fun _ => .plain _

theorem counts_caseLabel : Counts n outside caseLabel :=
  .behind fun _ => .branch (counts_constExpr.bind fun _ => .plain _) (.plain _)

theorem counts_bound? : Counts n outside bound? :=
  .behind fun _ => .branch (counts_constExpr.bind fun _ => .plain _) (.plain _)

theorem counts_stringBound? : Counts n outside stringBound? :=
  .behind fun _ => .branch ((counts_angled counts_constExpr).bind fun _ => .plain _) (.plain _)

/-! Types that hold others. -/

section

variable {type : Level → Parser TypeSpec} (types : Counts n outside type)

include types

theorem counts_member : Counts n outside fun l => member l (type l) :=
  .behind fun _ => counts_annotations.bind fun _ => types.bind fun _ =>
    counts_declarators.bind fun _ => .plain _

theorem counts_members : Counts n outside fun l => members l (type l) :=
  (counts_member types).many _

theorem counts_structBody (start : Span) (name : Ident) :
    Counts n outside fun l => structBody l (type l) start name :=
  .behind fun _ => .behind fun _ => (counts_members types).bind fun _ => .plain _

theorem counts_unionCase : Counts n outside fun l => unionCase l (type l) :=
  .behind fun _ => (counts_caseLabel.many _).bind fun _ => .branch (.plain _)
    (counts_annotations.bind fun _ => types.bind fun _ => counts_declarator.bind fun _ => .plain _)

theorem counts_unionBody (start : Span) (name : Ident) :
    Counts n outside fun l => unionBody l (type l) start name :=
  .behind fun _ => .behind fun _ => counts_annotations.bind fun _ => types.bind fun _ =>
    .behind fun _ => .behind fun _ => .behind fun _ =>
    ((counts_unionCase types).many _).bind fun _ => .plain _

end

/-- A type inside of what is read where a reader may go as deep as `l` says. -/
abbrev typeInside (l : Level) (b : Bool) : Parser TypeSpec := typeSpec { l with inTemplate := b }

section

variable (types : Counts n false typeSpec)

include types

theorem counts_keywordType (word : Keyword) :
    Counts n outside fun l => keywordType l (typeInside l) word := by
  cases word with
  | sequence | set =>
    exact .behind fun _ => .behind fun _ => (Counts.templated (types.bind fun _ =>
      counts_bound?.bind fun _ => .plain _)).bind fun _ => .plain _
  | map =>
    exact .behind fun _ => .behind fun _ => (Counts.templated (types.bind fun _ =>
      .behind fun _ => types.bind fun _ => counts_bound?.bind fun _ => .plain _)).bind fun _ =>
      .plain _
  | string | wstring => exact .behind fun _ => counts_stringBound?.bind fun _ => .plain _
  | fixed =>
    exact .behind fun _ => .behind fun _ => .branch
      (counts_angled (counts_constExpr.bind fun _ => .behind fun _ =>
        counts_constExpr.bind fun _ => .plain _))
      (.plain _)
  | struct =>
    exact .behind fun _ => .behind fun _ =>
      (counts_structBody types.anywhere _ _).bind fun _ => .plain _
  | union =>
    exact .behind fun _ => .behind fun _ =>
      (counts_unionBody types.anywhere _ _).bind fun _ => .plain _
  | enum => exact counts_enumType.bind fun _ => .plain _
  | bitset => exact counts_bitsetType.bind fun _ => .plain _
  | bitmask => exact counts_bitmaskType.bind fun _ => .plain _
  | _ => exact .plain _

theorem counts_typeWith : Counts n outside fun l => typeWith l (typeInside l) := by
  refine .behind fun primitive => ?_
  cases primitive with
  | some primitive => exact .plain _
  | none =>
    refine .behind fun next => ?_
    cases next with
    | keyword word => exact counts_keywordType types word
    | punct mark => cases mark <;> exact .plain _
    | _ => exact .plain _

end

theorem typeSpec_eq : typeSpec = down fun l => typeWith l (typeInside l) := by
  funext ⟨limit, left, inTemplate⟩
  cases left <;> rfl

theorem counts_typeSpec : Counts n outside typeSpec := by
  induction n generalizing outside with
  | zero =>
    rw [typeSpec_eq]
    exact .atLimit
  | succ n ih =>
    rw [typeSpec_eq]
    exact (counts_typeWith ih).nested

end Idl.Grammar
