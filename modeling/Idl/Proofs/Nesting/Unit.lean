import Idl.Proofs.Grammar.Precedence
import Idl.Proofs.Nesting.Definition
import Idl.Proofs.Progress.Unit

/-!
The limit on nesting. No way from the root of a unit to a leaf passes more nodes that count than
the limit allows, and each rule of the grammar leaves the counters behind it as they were. Main
statement: `nesting_bounded`.
-/

set_option autoImplicit false

namespace Idl.Grammar

/-- The reader of a whole unit. -/
def specification (l : Level) : Parser Specification := do
  let found ← (fun s => .ok (imports s).1 (imports s).2 : Parser (List Import))
  let definitions ← itemsUntil (·.atEnd) (innerAt l).definition
  return ⟨found, definitions⟩

/-- A rule of the grammar as a reader that is told how deep it may go, and whether it stands outside
of types only. -/
inductive Production : Bool → {α : Type} → (Level → Parser α) → Prop
  /-- A rule without types and expressions. -/
  | flat {α : Type} (p : Parser α) : Production false fun _ => p
  | operator (op : BinaryOp) (tokens : Nat) : Production false fun l => operator l op tokens
  | unaryExpr : Production false operandAt
  | levelExpr (m : Nat) : Production false fun l => levelExpr l m
  | constExpr : Production false constExpr
  | annotationArgs : Production false annotationArgs
  | annotationUse : Production false annotationUse
  | annotations : Production false annotations
  | declarator : Production false declarator
  | declarators : Production false declarators
  | enumerators : Production false enumerators
  | enumType : Production false enumType
  | bitmaskType : Production false bitmaskType
  | bitfieldArgs : Production false bitfieldArgs
  | bitfield : Production false bitfield
  | bitsetType : Production false bitsetType
  | member : Production false fun l => member l (typeSpec l)
  | members : Production false fun l => members l (typeSpec l)
  | structBody (start : Span) (name : Ident) :
      Production false fun l => structBody l (typeSpec l) start name
  | caseLabel : Production false caseLabel
  | unionCase : Production false fun l => unionCase l (typeSpec l)
  | unionBody (start : Span) (name : Ident) :
      Production false fun l => unionBody l (typeSpec l) start name
  | bound : Production false bound?
  | stringBound : Production false stringBound?
  | keywordType (word : Keyword) : Production false fun l => keywordType l (typeInside l) word
  | unnestedType : Production false fun l => typeWith l (typeInside l)
  | typeSpec : Production false typeSpec
  | param : Production false param
  | params : Production false params
  | attributeDecl (uses : List AnnotationUse) : Production false fun l => attributeDecl l uses
  | operation (uses : List AnnotationUse) (start : Span) :
      Production false fun l => operation l uses start
  | stateMember (uses : List AnnotationUse) (start : Span) (isPublic : Bool) :
      Production false fun l => stateMember l uses start isPublic
  | initializer (start : Span) (kind : InitializerKind) :
      Production false fun l => initializer l start kind
  | plainExport (uses : List AnnotationUse) (start : Span) :
      Production false fun l => plainExport l uses start
  | structDefinition : Production false structDefinition
  | unionDefinition : Production false unionDefinition
  | typedefDecl : Production false typedefDecl
  | constDecl : Production false constDecl
  | exceptionDecl : Production false exceptionDecl
  | annotationMember : Production false annotationMember
  | moduleDecl : Production true fun l => moduleDecl (innerAt l)
  | exportBody : Production true fun l => exportBody (innerAt l)
  | interface (qualifier : Option Qualifier) :
      Production true fun l => interface (innerAt l) qualifier
  | valueBody (name : Ident) (qualifier : Option Qualifier) :
      Production true fun l => valueBody (innerAt l) name qualifier
  | valueType (qualifier : Option Qualifier) :
      Production true fun l => valueType l (innerAt l) qualifier
  | eventType (qualifier : Option Qualifier) :
      Production true fun l => eventType (innerAt l) qualifier
  | component : Production true fun l => component (innerAt l)
  | home : Production true fun l => home (innerAt l)
  | qualified (qualifier : Qualifier) : Production true fun l => qualified l (innerAt l) qualifier
  | annotationItem : Production true fun l => annotationItem l (innerAt l)
  | annotationDecl : Production true fun l => annotationDecl l (innerAt l)
  | definitionKind : Production true fun l => definitionKind l (innerAt l)
  | unnestedDefinition : Production true fun l => definitionWith l (innerAt l)
  | definition : Production true fun l => (innerAt l).definition
  | unnestedExport : Production true fun l => exportWith l (definitionKind l (innerAt l))
  | exportItem : Production true fun l => (innerAt l).exportItem
  | specification : Production true specification

theorem counts_specification {n : Nat} : Counts n true specification :=
  .behind fun _ => (counts_innerAt.1.itemsUntil _).bind fun _ => .plain _

theorem Production.counts {α : Type} {outside : Bool} {p : Level → Parser α}
    (production : Production outside p) (n : Nat) : Counts n outside p := by
  have definitions := (counts_innerAt (n := n)).1
  have exports := (counts_innerAt (n := n)).2
  have kinds := counts_definitionKind definitions exports
  cases production with
  | flat p => exact .plain p
  | operator op tokens => exact .operator op tokens
  | unaryExpr => exact counts_operandAt
  | levelExpr m => exact counts_tightest counts_operandAt (6 - m)
  | constExpr => exact counts_constExpr
  | annotationArgs => exact counts_annotationArgs
  | annotationUse => exact counts_annotationUse
  | annotations => exact counts_annotations
  | declarator => exact counts_declarator
  | declarators => exact counts_declarators
  | enumerators => exact counts_enumerators
  | enumType => exact counts_enumType
  | bitmaskType => exact counts_bitmaskType
  | bitfieldArgs => exact counts_bitfieldArgs
  | bitfield => exact counts_bitfield
  | bitsetType => exact counts_bitsetType
  | member => exact counts_member counts_typeSpec
  | members => exact counts_members counts_typeSpec
  | structBody start name => exact counts_structBody counts_typeSpec start name
  | caseLabel => exact counts_caseLabel
  | unionCase => exact counts_unionCase counts_typeSpec
  | unionBody start name => exact counts_unionBody counts_typeSpec start name
  | bound => exact counts_bound?
  | stringBound => exact counts_stringBound?
  | keywordType word => exact counts_keywordType counts_typeSpec word
  | unnestedType => exact counts_typeWith counts_typeSpec
  | typeSpec => exact counts_typeSpec
  | param => exact counts_param
  | params => exact counts_params
  | attributeDecl uses => exact counts_attributeDecl uses
  | operation uses start => exact counts_operation uses start
  | stateMember uses start isPublic => exact counts_stateMember uses start isPublic
  | initializer start kind => exact counts_initializer start kind
  | plainExport uses start => exact counts_plainExport uses start
  | structDefinition => exact counts_structDefinition
  | unionDefinition => exact counts_unionDefinition
  | typedefDecl => exact counts_typedefDecl
  | constDecl => exact counts_constDecl
  | exceptionDecl => exact counts_exceptionDecl
  | annotationMember => exact counts_annotationMember
  | moduleDecl => exact counts_moduleDecl definitions
  | exportBody => exact counts_exportBody exports
  | interface qualifier => exact counts_interface exports qualifier
  | valueBody name qualifier => exact counts_valueBody exports name qualifier
  | valueType qualifier => exact counts_valueType exports qualifier
  | eventType qualifier => exact counts_eventType exports qualifier
  | component => exact counts_component exports
  | home => exact counts_home exports
  | qualified qualifier => exact counts_qualified exports qualifier
  | annotationItem => exact counts_annotationItem definitions
  | annotationDecl => exact counts_annotationDecl definitions
  | definitionKind => exact kinds
  | unnestedDefinition => exact counts_definitionWith definitions exports
  | definition => exact definitions
  | unnestedExport => exact counts_exportWith kinds
  | exportItem => exact exports
  | specification => exact counts_specification

theorem specification_ofTokens (limit : Nat) (tokens : List Token) :
    specification ⟨limit, limit, false⟩ (Cursor.ofTokens tokens) =
      .ok (parseTokens limit tokens).specification (ending limit tokens) := rfl

/-- The rules are read as readers that count read them, a unit with the counters at zero. Each of
these leaves the counters as it found them, whether it returns or fails. -/
theorem nesting_bounded (limit : Nat) (tokens : List Token) :
    (parseTokens limit tokens).specification.outline.depth ≤ limit ∧
    (∀ e ∈ (parseTokens limit tokens).specification.outline.exprs, ∀ part ∈ e.parts,
      part.operations ≤ limit ∧ part.height ≤ 2 * limit) ∧
    specification ⟨limit, limit, false⟩ (Cursor.ofTokens tokens) =
      .ok (parseTokens limit tokens).specification (ending limit tokens) ∧
    ∀ {α : Type} {outside : Bool} {p : Level → Parser α}, Production outside p →
      ∃ q : Counted α, Bracketed q ∧ Restores q ∧
        ∀ (c : Counters) (s : Cursor), c.limit = limit → (outside = true → c.templates = 0) →
          q ⟨c, s⟩ = counted c (p c.level s) := by
  obtain ⟨depth, exprs⟩ := Specification.bounds (read_parseTokens limit tokens).2.1
  refine ⟨depth, exprs, specification_ofTokens limit tokens, fun production => ?_⟩
  obtain ⟨q, bracketed, same⟩ := production.counts limit
  refine ⟨q, bracketed, bracketed.restores, fun c s top closed => same c s ⟨?_, closed⟩⟩
  rw [top]
  exact Nat.sub_le _ _

/-- A name for a sequence, where only the sequence itself is within the limit of two levels. -/
def deepTokens : List Token := [
  ⟨.keyword .typeDef, "typedef", .empty⟩, ⟨.keyword .sequence, "sequence", .empty⟩,
  ⟨.punct .less, "<", .empty⟩, ⟨.keyword .short, "short", .empty⟩,
  ⟨.punct .greater, ">", .empty⟩, ⟨.ident, "y", .empty⟩, ⟨.punct .semi, ";", .empty⟩]

/-- A constant in front of it. -/
def constTokens : List Token := [
  ⟨.keyword .const, "const", .empty⟩, ⟨.keyword .long, "long", .empty⟩, ⟨.ident, "x", .empty⟩,
  ⟨.punct .equals, "=", .empty⟩, ⟨.punct .minus, "-", .empty⟩,
  ⟨.literal .decimal, "1", .empty⟩, ⟨.punct .plus, "+", .empty⟩,
  ⟨.literal .decimal, "2", .empty⟩, ⟨.punct .semi, ";", .empty⟩] ++ deepTokens

/-- The value of the constant. -/
def deepValue : ConstExpr :=
  .binary .add (.unary .minus (.literal (.integer 1 .decimal) .empty none) .empty none)
    (.literal (.integer 2 .decimal) .empty none) .empty none

theorem nesting_bounded_deep :
    (deepValue ∈ (parseTokens 2 constTokens).specification.outline.exprs ∧
      deepValue.operations ≤ 2 ∧ deepValue.height ≤ 4) ∧
    (∃ q : Counted Specification, Bracketed q ∧
      q ⟨⟨2, 0, 0⟩, Cursor.ofTokens constTokens⟩ =
        .ok (parseTokens 2 constTokens).specification ⟨⟨2, 0, 0⟩, ending 2 constTokens⟩) ∧
    ∃ q : Counted Typedef, Bracketed q ∧ ∃ t,
      q ⟨⟨2, 1, 0⟩, Cursor.ofTokens deepTokens⟩ = .error (.tooDeep 2 .empty) ⟨⟨2, 1, 0⟩, t⟩ := by
  obtain ⟨-, exprs, read, productions⟩ := nesting_bounded 2 constTokens
  refine ⟨?_, ?_, ?_⟩
  · have whole : (parseTokens 2 constTokens).specification.outline.exprs = [deepValue] := by cbv
    have mem : deepValue ∈ (parseTokens 2 constTokens).specification.outline.exprs := by
      rw [whole]
      exact List.mem_cons_self
    exact ⟨mem, exprs deepValue mem deepValue List.mem_cons_self⟩
  · obtain ⟨q, bracketed, -, same⟩ := productions .specification
    exact ⟨q, bracketed, (same ⟨2, 0, 0⟩ _ rfl fun _ => rfl).trans (congrArg (counted _) read)⟩
  · obtain ⟨q, bracketed, -, same⟩ := productions .typedefDecl
    have failed : typedefDecl ⟨2, 1, false⟩ (Cursor.ofTokens deepTokens) =
        .error (.tooDeep 2 .empty)
          ⟨deepTokens.drop 3, (Cursor.ofTokens deepTokens).ending, .empty, 0, 0, []⟩ := by
      cbv
    exact ⟨q, bracketed, _, (same ⟨2, 1, 0⟩ _ rfl fun _ => rfl).trans (congrArg (counted _) failed)⟩

end Idl.Grammar
