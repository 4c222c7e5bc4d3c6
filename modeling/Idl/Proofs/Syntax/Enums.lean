import Idl.Proofs.Scope.Declaration
import Mathlib.Data.List.Nodup

/-!
The enums of a tree that are declared, at any depth. Main statement: `Apart.enum_eq`.
-/

set_option autoImplicit false

namespace Idl

mutual

def TypeSpec.enums : TypeSpec → List EnumType
  | .struct ⟨_, _, fields, _⟩ => memberEnums fields
  | .union ⟨_, ⟨_, type, _⟩, cases, _⟩ => type.enums ++ caseEnums cases
  | .enum t => [t]
  | .sequence element _ => element.enums
  | .set element _ => element.enums
  | .map key value _ => key.enums ++ value.enums
  | .bitset _ => []
  | .bitmask _ => []
  | .primitive _ => []
  | .named _ => []
  | .string _ => []
  | .wstring _ => []
  | .fixed _ => []

def memberEnums : List (Member TypeSpec) → List EnumType
  | [] => []
  | ⟨_, type, _, _⟩ :: rest => type.enums ++ memberEnums rest

def caseEnums : List (UnionCase TypeSpec) → List EnumType
  | [] => []
  | ⟨_, _, type, _, _⟩ :: rest => type.enums ++ caseEnums rest

end

mutual

def Definition.enums : Definition → List EnumType
  | ⟨_, kind, _⟩ => kindEnums kind

/-- Types within constants and value boxes are not declared. -/
def kindEnums : DefinitionKind Definition → List EnumType
  | .module ⟨_, ds⟩ => allEnums ds
  | .struct t => (TypeSpec.struct t).enums
  | .union t => (TypeSpec.union t).enums
  | .enum t => [t]
  | .typedef d => d.type.enums
  | .exception d => memberEnums d.members
  | .interface ⟨_, _, _, body⟩ => exportEnums body
  | .value ⟨_, _, _, _, _, body⟩ => exportEnums body
  | .event ⟨_, _, _, _, _, body⟩ => exportEnums body
  | .component ⟨_, _, _, body⟩ => exportEnums body
  | .home ⟨_, _, _, _, _, body⟩ => exportEnums body
  | .bitset _ => []
  | .bitmask _ => []
  | .const _ => []
  | .native _ => []
  | .forward _ => []
  | .valueBox _ => []
  | .typeId _ => []
  | .typePrefix _ => []
  | .annotationDecl _ => []

def allEnums : List Definition → List EnumType
  | [] => []
  | d :: ds => d.enums ++ allEnums ds

def exportEnums : List (Export Definition) → List EnumType
  | [] => []
  | .definition d :: rest => d.enums ++ exportEnums rest
  | .stateMember m :: rest => m.member.type.enums ++ exportEnums rest
  | .attribute _ :: rest => exportEnums rest
  | .operation _ :: rest => exportEnums rest
  | .initializer _ :: rest => exportEnums rest
  | .port _ :: rest => exportEnums rest

end

/-- The enums that a unit declares. -/
def Specification.enums (s : Specification) : List EnumType := allEnums s.definitions

/-! They are among the declarations, in the same order. -/

def EnumType.declaration (t : EnumType) : Declaration := ⟨t.name, .defined .enum⟩

/-- The enums are declared. -/
def Declared (ts : List EnumType) (ds : List Declaration) : Prop :=
  (ts.map EnumType.declaration).Sublist ds

namespace Declared

variable {ts us : List EnumType} {ds es : List Declaration}

theorem nil (ds : List Declaration) : Declared [] ds := List.nil_sublist _

theorem append (first : Declared ts ds) (second : Declared us es) :
    Declared (ts ++ us) (ds ++ es) := by
  rw [Declared, List.map_append]
  exact List.Sublist.append first second

theorem behind (declared : Declared ts ds) (d : Declaration) : Declared ts (d :: ds) :=
  List.Sublist.cons d declared

theorem before (declared : Declared ts ds) (es : List Declaration) : Declared ts (ds ++ es) :=
  List.Sublist.trans declared (List.sublist_append_left _ _)

theorem single (t : EnumType) : Declared [t] (listing t.name .enum t.enumerators) :=
  List.singleton_sublist.mpr List.mem_cons_self

end Declared

mutual

theorem TypeSpec.declared_enums : (τ : TypeSpec) → Declared τ.enums τ.declarations
  | .struct ⟨_, _, fields, _⟩ => by
    rw [TypeSpec.enums, TypeSpec.declarations]
    exact (declared_memberEnums fields).behind _
  | .union ⟨_, ⟨_, type, _⟩, cases, _⟩ => by
    rw [TypeSpec.enums, TypeSpec.declarations]
    exact (type.declared_enums.append (declared_caseEnums cases)).behind _
  | .enum t => by
    rw [TypeSpec.enums, TypeSpec.declarations]
    exact .single t
  | .sequence element _ => by
    rw [TypeSpec.enums, TypeSpec.declarations]
    exact element.declared_enums
  | .set element _ => by
    rw [TypeSpec.enums, TypeSpec.declarations]
    exact element.declared_enums
  | .map key value _ => by
    rw [TypeSpec.enums, TypeSpec.declarations]
    exact key.declared_enums.append value.declared_enums
  | .bitset _ => by rw [TypeSpec.enums]; exact .nil _
  | .bitmask _ => by rw [TypeSpec.enums]; exact .nil _
  | .primitive _ => by rw [TypeSpec.enums]; exact .nil _
  | .named _ => by rw [TypeSpec.enums]; exact .nil _
  | .string _ => by rw [TypeSpec.enums]; exact .nil _
  | .wstring _ => by rw [TypeSpec.enums]; exact .nil _
  | .fixed _ => by rw [TypeSpec.enums]; exact .nil _

theorem declared_memberEnums : (ms : List (Member TypeSpec)) →
    Declared (memberEnums ms) (memberDeclarations ms)
  | [] => by rw [memberEnums]; exact .nil _
  | ⟨_, type, _, _⟩ :: rest => by
    rw [memberEnums, memberDeclarations]
    exact type.declared_enums.append (declared_memberEnums rest)

theorem declared_caseEnums : (cs : List (UnionCase TypeSpec)) →
    Declared (caseEnums cs) (caseDeclarations cs)
  | [] => by rw [caseEnums]; exact .nil _
  | ⟨_, _, type, _, _⟩ :: rest => by
    rw [caseEnums, caseDeclarations]
    exact type.declared_enums.append (declared_caseEnums rest)

end

mutual

theorem Definition.declared_enums : (d : Definition) → Declared d.enums d.declarations
  | ⟨_, kind, _⟩ => by
    rw [Definition.enums, Definition.declarations]
    exact declared_kindEnums kind

theorem declared_kindEnums : (kind : DefinitionKind Definition) →
    Declared (kindEnums kind) (kindDeclarations kind)
  | .module ⟨_, ds⟩ => by
    rw [kindEnums, kindDeclarations]
    exact (declared_allEnums ds).behind _
  | .struct t => by
    rw [kindEnums, kindDeclarations]
    exact TypeSpec.declared_enums _
  | .union t => by
    rw [kindEnums, kindDeclarations]
    exact TypeSpec.declared_enums _
  | .enum t => by
    rw [kindEnums, kindDeclarations]
    exact .single t
  | .typedef d => by
    rw [kindEnums, kindDeclarations]
    exact d.type.declared_enums.before _
  | .exception d => by
    rw [kindEnums, kindDeclarations]
    exact (declared_memberEnums d.members).behind _
  | .interface ⟨_, _, _, body⟩ => by
    rw [kindEnums, kindDeclarations]
    exact (declared_exportEnums body).behind _
  | .value ⟨_, _, _, _, _, body⟩ => by
    rw [kindEnums, kindDeclarations]
    exact (declared_exportEnums body).behind _
  | .event ⟨_, _, _, _, _, body⟩ => by
    rw [kindEnums, kindDeclarations]
    exact (declared_exportEnums body).behind _
  | .component ⟨_, _, _, body⟩ => by
    rw [kindEnums, kindDeclarations]
    exact (declared_exportEnums body).behind _
  | .home ⟨_, _, _, _, _, body⟩ => by
    rw [kindEnums, kindDeclarations]
    exact (declared_exportEnums body).behind _
  | .bitset _ => by rw [kindEnums]; exact .nil _
  | .bitmask _ => by rw [kindEnums]; exact .nil _
  | .const _ => by rw [kindEnums]; exact .nil _
  | .native _ => by rw [kindEnums]; exact .nil _
  | .forward _ => by rw [kindEnums]; exact .nil _
  | .valueBox _ => by rw [kindEnums]; exact .nil _
  | .typeId _ => by rw [kindEnums]; exact .nil _
  | .typePrefix _ => by rw [kindEnums]; exact .nil _
  | .annotationDecl _ => by rw [kindEnums]; exact .nil _

theorem declared_allEnums : (ds : List Definition) → Declared (allEnums ds) (allDeclarations ds)
  | [] => by rw [allEnums]; exact .nil _
  | d :: ds => by
    rw [allEnums, allDeclarations]
    exact d.declared_enums.append (declared_allEnums ds)

theorem declared_exportEnums : (es : List (Export Definition)) →
    Declared (exportEnums es) (exportDeclarations es)
  | [] => by rw [exportEnums]; exact .nil _
  | .definition d :: rest => by
    rw [exportEnums, exportDeclarations]
    exact d.declared_enums.append (declared_exportEnums rest)
  | .stateMember m :: rest => by
    rw [exportEnums, exportDeclarations]
    exact m.member.type.declared_enums.append (declared_exportEnums rest)
  | .attribute _ :: rest => by
    rw [exportEnums, exportDeclarations]
    exact declared_exportEnums rest
  | .operation _ :: rest => by
    rw [exportEnums, exportDeclarations]
    exact declared_exportEnums rest
  | .initializer _ :: rest => by
    rw [exportEnums, exportDeclarations]
    exact declared_exportEnums rest
  | .port _ :: rest => by
    rw [exportEnums, exportDeclarations]
    exact declared_exportEnums rest

end

theorem Specification.declared_enums (s : Specification) : Declared s.enums s.declarations :=
  declared_allEnums s.definitions

/-- No two enums have their names at one place. -/
theorem Apart.enum_eq {s : Specification} (apart : Apart s.declarations) {t u : EnumType}
    (mem : t ∈ s.enums) (other : u ∈ s.enums)
    (same : t.name.span.offset = u.name.span.offset) : t = u := by
  have distinct := List.Nodup.sublist
    (s.declared_enums.map fun d : Declaration => d.name.span.offset) apart
  rw [List.map_map] at distinct
  exact List.inj_on_of_nodup_map distinct mem other same

end Idl
