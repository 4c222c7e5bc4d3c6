import Idl.Scope.Symbol
import Mathlib.Data.List.Basic

/-!
The declarations of a tree in document order: each name that a definition or a type written in
place declares, with what it is declared as.
-/

set_option autoImplicit false

namespace Idl

/-- What a name is declared as. -/
inductive Role
  /-- A module, which may be opened more than once. -/
  | module
  /-- A type that is defined elsewhere. -/
  | announced (kind : ForwardKind)
  | defined (kind : SymbolKind)
  /-- An enumerator or flag of the type that `owner` names. -/
  | listed (owner : Ident)
deriving DecidableEq, Repr

structure Declaration where
  name : Ident
  role : Role
deriving DecidableEq, Repr

/-- An enum with its enumerators, or a bitmask with its flags. -/
def listing (owner : Ident) (kind : SymbolKind) (values : List Enumerator) : List Declaration :=
  ⟨owner, .defined kind⟩ :: values.map fun v => ⟨v.name, .listed owner⟩

mutual

def TypeSpec.declarations : TypeSpec → List Declaration
  | .struct ⟨name, _, fields, _⟩ => ⟨name, .defined .struct⟩ :: memberDeclarations fields
  | .union ⟨name, ⟨_, type, _⟩, cases, _⟩ =>
    ⟨name, .defined .union⟩ :: (type.declarations ++ caseDeclarations cases)
  | .enum t => listing t.name .enum t.enumerators
  | .bitset t => [⟨t.name, .defined .bitset⟩]
  | .bitmask t => listing t.name .bitmask t.values
  | .sequence element _ => element.declarations
  | .set element _ => element.declarations
  | .map key value _ => key.declarations ++ value.declarations
  | .primitive _ => []
  | .named _ => []
  | .string _ => []
  | .wstring _ => []
  | .fixed _ => []

def memberDeclarations : List (Member TypeSpec) → List Declaration
  | [] => []
  | ⟨_, type, _, _⟩ :: rest => type.declarations ++ memberDeclarations rest

def caseDeclarations : List (UnionCase TypeSpec) → List Declaration
  | [] => []
  | ⟨_, _, type, _, _⟩ :: rest => type.declarations ++ caseDeclarations rest

end

/-- The names of a typedef, behind the types it defines in place. -/
def Typedef.declarations (d : Typedef) : List Declaration :=
  d.type.declarations ++ d.declarators.map fun d => ⟨d.name, .defined .typedef⟩

mutual

def Definition.declarations : Definition → List Declaration
  | ⟨_, kind, _⟩ => kindDeclarations kind

def kindDeclarations : DefinitionKind Definition → List Declaration
  | .module ⟨name, ds⟩ => ⟨name, .module⟩ :: allDeclarations ds
  | .struct t => (TypeSpec.struct t).declarations
  | .union t => (TypeSpec.union t).declarations
  | .enum t => listing t.name .enum t.enumerators
  | .bitset t => [⟨t.name, .defined .bitset⟩]
  | .bitmask t => listing t.name .bitmask t.values
  | .typedef d => d.declarations
  | .const d => [⟨d.name, .defined .const⟩]
  | .exception d => ⟨d.name, .defined .exception⟩ :: memberDeclarations d.members
  | .native name => [⟨name, .defined .native⟩]
  | .forward d => [⟨d.name, .announced d.kind⟩]
  | .interface ⟨name, _, _, body⟩ => ⟨name, .defined .interface⟩ :: exportDeclarations body
  | .value ⟨name, _, _, _, _, body⟩ => ⟨name, .defined .value⟩ :: exportDeclarations body
  | .event ⟨name, _, _, _, _, body⟩ => ⟨name, .defined .event⟩ :: exportDeclarations body
  | .valueBox d => [⟨d.name, .defined .valueBox⟩]
  | .component ⟨name, _, _, body⟩ => ⟨name, .defined .component⟩ :: exportDeclarations body
  | .home ⟨name, _, _, _, _, body⟩ => ⟨name, .defined .home⟩ :: exportDeclarations body
  | .typeId _ => []
  | .typePrefix _ => []
  | .annotationDecl _ => []

def allDeclarations : List Definition → List Declaration
  | [] => []
  | d :: ds => d.declarations ++ allDeclarations ds

def exportDeclarations : List (Export Definition) → List Declaration
  | [] => []
  | .definition d :: rest => d.declarations ++ exportDeclarations rest
  | .stateMember m :: rest => m.member.type.declarations ++ exportDeclarations rest
  | .attribute _ :: rest => exportDeclarations rest
  | .operation _ :: rest => exportDeclarations rest
  | .initializer _ :: rest => exportDeclarations rest
  | .port _ :: rest => exportDeclarations rest

end

mutual

/-- Declarations that define nothing: those in the types of constants and value boxes. -/
def Definition.hidden : Definition → List Declaration
  | ⟨_, kind, _⟩ => kindHidden kind

def kindHidden : DefinitionKind Definition → List Declaration
  | .module ⟨_, ds⟩ => allHidden ds
  | .const d => d.type.declarations
  | .valueBox d => d.type.declarations
  | .interface ⟨_, _, _, body⟩ => exportHidden body
  | .value ⟨_, _, _, _, _, body⟩ => exportHidden body
  | .event ⟨_, _, _, _, _, body⟩ => exportHidden body
  | .component ⟨_, _, _, body⟩ => exportHidden body
  | .home ⟨_, _, _, _, _, body⟩ => exportHidden body
  | .struct _ => []
  | .union _ => []
  | .enum _ => []
  | .bitset _ => []
  | .bitmask _ => []
  | .typedef _ => []
  | .exception _ => []
  | .native _ => []
  | .forward _ => []
  | .typeId _ => []
  | .typePrefix _ => []
  | .annotationDecl _ => []

def allHidden : List Definition → List Declaration
  | [] => []
  | d :: ds => d.hidden ++ allHidden ds

def exportHidden : List (Export Definition) → List Declaration
  | [] => []
  | .definition d :: rest => d.hidden ++ exportHidden rest
  | .stateMember _ :: rest => exportHidden rest
  | .attribute _ :: rest => exportHidden rest
  | .operation _ :: rest => exportHidden rest
  | .initializer _ :: rest => exportHidden rest
  | .port _ :: rest => exportHidden rest

end

/-- The declarations of a unit. -/
def Specification.declarations (s : Specification) : List Declaration :=
  allDeclarations s.definitions

/-- The declarations of a unit that define nothing. -/
def Specification.hidden (s : Specification) : List Declaration := allHidden s.definitions

/-- No two declarations begin at one place of the text. -/
def Apart (ds : List Declaration) : Prop := (ds.map (·.name.span.offset)).Nodup

end Idl
