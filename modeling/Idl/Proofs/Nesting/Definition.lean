import Idl.Grammar.Definition
import Idl.Proofs.Nesting.Type

/-!
Exports and definitions are read as readers that count read them. Main statement:
`counts_innerAt`.
-/

set_option autoImplicit false

namespace Idl.Grammar

variable {n : Nat} {outside : Bool}

/-! Exports. -/

theorem counts_param : Counts n outside param :=
  counts_annotations.bind fun _ => .behind fun _ => counts_typeSpec.bind fun _ => .plain _

theorem counts_params : Counts n outside params :=
  .behind fun _ => .behind fun _ => .branch (.plain _)
    (counts_param.commaList.bind fun _ => .plain _)

section

variable (uses : List AnnotationUse) (start : Span)

theorem counts_attributeDecl : Counts n outside fun l => attributeDecl l uses :=
  .behind fun _ => .behind fun _ => .behind fun _ => counts_typeSpec.bind fun _ => .plain _

theorem counts_operation : Counts n outside fun l => operation l uses start :=
  .behind fun _ => .behind fun _ => .branch
    (.behind fun _ => .behind fun _ => counts_params.bind fun _ => .plain _)
    ((counts_typeSpec.map _).bind fun _ => .behind fun _ => counts_params.bind fun _ => .plain _)

theorem counts_stateMember (isPublic : Bool) :
    Counts n outside fun l => stateMember l uses start isPublic :=
  .behind fun _ => counts_typeSpec.bind fun _ => counts_declarators.bind fun _ => .plain _

theorem counts_initializer (kind : InitializerKind) :
    Counts n outside fun l => initializer l start kind :=
  .behind fun _ => .behind fun _ => counts_params.bind fun _ => .plain _

theorem counts_plainExport : Counts n outside fun l => plainExport l uses start := by
  have operations : Counts n outside fun l => do
      return (Export.operation (← operation l uses start) : Export Definition) :=
    (counts_operation uses start).bind fun _ => .plain _
  refine .behind fun next => ?_
  cases next with
  | keyword word =>
    cases word with
    | readonly | attributeKw => exact (counts_attributeDecl uses).bind fun _ => .plain _
    | publicKw | privateKw => exact (counts_stateMember uses start _).bind fun _ => .plain _
    | factory | finder => exact (counts_initializer start _).bind fun _ => .plain _
    | provides | uses | emits | publishes | consumes => exact .plain _
    | _ => exact operations
  | _ => exact operations

end

theorem counts_exportWith {kinds : Level → Parser (DefinitionKind Definition)}
    (defines : Counts n outside kinds) : Counts n outside fun l => exportWith l (kinds l) :=
  .behind fun _ => counts_annotations.bind fun _ => .behind fun _ => .branch
    (defines.bind fun _ => .plain _) ((counts_plainExport _ _).bind fun _ => .plain _)

/-! Definitions that hold no others. -/

theorem counts_structDefinition : Counts n outside structDefinition :=
  .behind fun _ => .behind fun _ => .behind fun _ => .branch (.plain _)
    ((counts_structBody counts_typeSpec _ _).bind fun _ => .plain _)

theorem counts_unionDefinition : Counts n outside unionDefinition :=
  .behind fun _ => .behind fun _ => .behind fun _ => .branch (.plain _)
    ((counts_unionBody counts_typeSpec _ _).bind fun _ => .plain _)

theorem counts_typedefDecl : Counts n outside typedefDecl :=
  .behind fun _ => counts_typeSpec.bind fun _ => counts_declarators.bind fun _ => .plain _

theorem counts_constDecl : Counts n outside constDecl :=
  .behind fun _ => counts_typeSpec.bind fun _ => .behind fun _ => .behind fun _ =>
    counts_constExpr.bind fun _ => .plain _

theorem counts_exceptionDecl : Counts n outside exceptionDecl :=
  .behind fun _ => .behind fun _ => .behind fun _ =>
    (counts_members counts_typeSpec).bind fun _ => .plain _

theorem counts_annotationMember : Counts n outside annotationMember :=
  counts_typeSpec.bind fun _ => .behind fun _ => .behind fun _ => .branch
    ((counts_constExpr.map _).bind fun _ => .plain _) (.plain _)

/-! Definitions that hold others. -/

section

variable {inner : Level → Inner} (definitions : Counts n outside fun l => (inner l).definition)
  (exports : Counts n outside fun l => (inner l).exportItem)

section

include definitions

theorem counts_moduleDecl : Counts n outside fun l => moduleDecl (inner l) :=
  .behind fun _ => .behind fun _ => .behind fun _ => definitions.bodyItems.bind fun _ => .plain _

theorem counts_annotationItem : Counts n outside fun l => annotationItem l (inner l) :=
  .behind fun _ => .branch (definitions.bind fun _ => .plain _)
    (counts_annotationMember.bind fun _ => .plain _)

theorem counts_annotationDecl : Counts n outside fun l => annotationDecl l (inner l) :=
  .behind fun _ => .behind fun _ => .behind fun _ => .behind fun _ =>
    ((counts_annotationItem definitions).many _).bind fun _ => .plain _

end

section

include exports

theorem counts_exportBody : Counts n outside fun l => exportBody (inner l) :=
  .behind fun _ => exports.bodyItems.bind fun _ => .plain _

theorem counts_interface (qualifier : Option Qualifier) :
    Counts n outside fun l => interface (inner l) qualifier :=
  .behind fun _ => .behind fun _ => .behind fun _ => .branch (.plain _) (.behind fun _ => .branch
    (.behind fun _ => (counts_exportBody exports).bind fun _ => .plain _)
    (.behind fun _ => (counts_exportBody exports).bind fun _ => .plain _))

theorem counts_valueBody (name : Ident) (qualifier : Option Qualifier) :
    Counts n outside fun l => valueBody (inner l) name qualifier :=
  .behind fun _ => .behind fun _ => (counts_exportBody exports).bind fun _ => .plain _

theorem counts_valueType (qualifier : Option Qualifier) :
    Counts n outside fun l => valueType l (inner l) qualifier :=
  .behind fun _ => .behind fun _ => .behind fun _ => .branch (.plain _) (.behind fun _ => .branch
    ((counts_valueBody exports _ _).bind fun _ => .plain _)
    (.branch (.plain _) (counts_typeSpec.bind fun _ => .plain _)))

theorem counts_eventType (qualifier : Option Qualifier) :
    Counts n outside fun l => eventType (inner l) qualifier :=
  .behind fun _ => .behind fun _ => .behind fun _ => .branch (.plain _) (.behind fun _ => .branch
    ((counts_valueBody exports _ _).bind fun _ => .plain _) (.plain _))

theorem counts_component : Counts n outside fun l => component (inner l) :=
  .behind fun _ => .behind fun _ => .behind fun _ => .branch (.plain _) (.behind fun _ =>
    .behind fun _ => (counts_exportBody exports).bind fun _ => .plain _)

theorem counts_home : Counts n outside fun l => home (inner l) :=
  .behind fun _ => .behind fun _ => .behind fun _ => .behind fun _ => .behind fun _ =>
    .behind fun _ => .behind fun _ => .branch
      (.behind fun _ => (counts_exportBody exports).bind fun _ => .plain _)
      (.behind fun _ => (counts_exportBody exports).bind fun _ => .plain _)

theorem counts_qualified (qualifier : Qualifier) :
    Counts n outside fun l => qualified l (inner l) qualifier := by
  refine .behind fun _ => .behind fun next => ?_
  have interfaces := counts_interface exports
  have values := counts_valueType exports
  have events := counts_eventType exports
  cases qualifier with
  | abstractType =>
    cases next with
    | keyword word =>
      cases word with
      | interface => exact interfaces _
      | valueType => exact values _
      | eventType => exact events _
      | _ => exact .plain _
    | _ => exact .plain _
  | localType =>
    cases next with
    | keyword word =>
      cases word with
      | interface => exact interfaces _
      | _ => exact .plain _
    | _ => exact .plain _
  | customType =>
    cases next with
    | keyword word =>
      cases word with
      | valueType => exact values _
      | eventType => exact events _
      | _ => exact .plain _
    | _ => exact .plain _

end

include definitions exports

theorem counts_definitionKind : Counts n outside fun l => definitionKind l (inner l) := by
  refine .behind fun next => ?_
  have annotationDecls : Counts n outside fun l => (do
      if ← test atAnnotationDecl then return .annotationDecl (← annotationDecl l (inner l))
      expected "definition" : Parser (DefinitionKind Definition)) :=
    .behind fun _ => .branch ((counts_annotationDecl definitions).bind fun _ => .plain _)
      (.plain _)
  cases next with
  | keyword word =>
    cases word with
    | moduleKw => exact (counts_moduleDecl definitions).bind fun _ => .plain _
    | struct => exact counts_structDefinition
    | union => exact counts_unionDefinition
    | enum => exact counts_enumType.bind fun _ => .plain _
    | bitset => exact counts_bitsetType.bind fun _ => .plain _
    | bitmask => exact counts_bitmaskType.bind fun _ => .plain _
    | typeDef => exact counts_typedefDecl.bind fun _ => .plain _
    | const => exact counts_constDecl.bind fun _ => .plain _
    | exception => exact counts_exceptionDecl.bind fun _ => .plain _
    | interface => exact counts_interface exports none
    | valueType => exact counts_valueType exports none
    | eventType => exact counts_eventType exports none
    | component => exact counts_component exports
    | home => exact counts_home exports
    | abstractKw => exact counts_qualified exports .abstractType
    | localKw => exact counts_qualified exports .localType
    | custom => exact counts_qualified exports .customType
    | _ => exact .plain _
  | _ => exact annotationDecls

theorem counts_definitionWith : Counts n outside fun l => definitionWith l (inner l) :=
  .behind fun _ => counts_annotations.bind fun _ =>
    (counts_definitionKind definitions exports).bind fun _ => .plain _

end

/-! Definitions and exports as deep as they may nest. -/

/-- The readers of definitions and exports one level down from `l`. -/
def innerAt (l : Level) : Inner := ⟨definitionAt l.limit l.left, exportAt l.limit l.left⟩

/-- A definition stands outside of types. -/
theorem definitionAt_eq : (fun l => (innerAt l).definition) =
    down fun l => definitionWith { l with inTemplate := false } (innerAt l) := by
  funext ⟨limit, left, inTemplate⟩
  cases left <;> rfl

theorem exportAt_eq : (fun l => (innerAt l).exportItem) =
    down fun l => exportWith { l with inTemplate := false }
      (definitionKind { l with inTemplate := false } (innerAt l)) := by
  funext ⟨limit, left, inTemplate⟩
  cases left <;> rfl

theorem counts_innerAt : Counts n true (fun l => (innerAt l).definition) ∧
    Counts n true fun l => (innerAt l).exportItem := by
  induction n with
  | zero =>
    rw [definitionAt_eq, exportAt_eq]
    exact ⟨.atLimit, .atLimit⟩
  | succ n ih =>
    obtain ⟨definitions, exports⟩ := ih
    rw [definitionAt_eq, exportAt_eq]
    exact ⟨(counts_definitionWith definitions exports).unmarked.nested,
      (counts_exportWith (counts_definitionKind definitions exports)).unmarked.nested⟩

end Idl.Grammar
