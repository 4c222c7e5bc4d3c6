import Idl.Proofs.Scope.Declaration
import Mathlib.Data.List.Perm.Subperm

/-!
The declarations of a unit that get a layout, with all that their layouts are made of. Types that a
state member defines in place are declared and get none.
-/

set_option autoImplicit false

namespace Idl

/-- A declaration that has a layout. -/
inductive Laid
  | struct (type : StructType TypeSpec)
  | union (type : UnionType TypeSpec)
  | enum (annotations : List AnnotationUse) (type : EnumType)
  | bitset (type : BitsetType)
  | bitmask (annotations : List AnnotationUse) (type : BitmaskType)
  | typedef (type : TypeSpec) (declarator : Declarator)
  | const (decl : ConstDecl)
  | exception (decl : ExceptionDecl)
  | native (name : Ident)
  /-- Of these, only what kind of thing they are is told. -/
  | closed (name : Ident) (kind : SymbolKind)

namespace Laid

def name : Laid → Ident
  | .struct t => t.name
  | .union t => t.name
  | .enum _ t => t.name
  | .bitset t => t.name
  | .bitmask _ t => t.name
  | .typedef _ d => d.name
  | .const d => d.name
  | .exception d => d.name
  | .native name => name
  | .closed name _ => name

def kind : Laid → SymbolKind
  | .struct _ => .struct
  | .union _ => .union
  | .enum _ _ => .enum
  | .bitset _ => .bitset
  | .bitmask _ _ => .bitmask
  | .typedef _ _ => .typedef
  | .const _ => .const
  | .exception _ => .exception
  | .native _ => .native
  | .closed _ kind => kind

def bitset? : Laid → Option BitsetType
  | .bitset t => some t
  | _ => none

def declaration (x : Laid) : Declaration := ⟨x.name, .defined x.kind⟩

/-- What the declaration and the types in it declare, as far as it is layout. -/
def declarations : Laid → List Declaration
  | .struct t => (TypeSpec.struct t).declarations
  | .union t => (TypeSpec.union t).declarations
  | .enum _ t => listing t.name .enum t.enumerators
  | .bitset t => [⟨t.name, .defined .bitset⟩]
  | .bitmask _ t => listing t.name .bitmask t.values
  | .typedef type d => type.declarations ++ [⟨d.name, .defined .typedef⟩]
  | .const d => [⟨d.name, .defined .const⟩]
  | .exception d => ⟨d.name, .defined .exception⟩ :: memberDeclarations d.members
  | .native name => [⟨name, .defined .native⟩]
  | .closed name kind => [⟨name, .defined kind⟩]

end Laid

mutual

def TypeSpec.laid : TypeSpec → List Laid
  | .struct ⟨name, base, fields, span⟩ => .struct ⟨name, base, fields, span⟩ :: memberLaid fields
  | .union ⟨name, ⟨as, type, switchSpan⟩, cases, span⟩ =>
    .union ⟨name, ⟨as, type, switchSpan⟩, cases, span⟩ :: (type.laid ++ caseLaid cases)
  | .enum t => [.enum [] t]
  | .bitset t => [.bitset t]
  | .bitmask t => [.bitmask [] t]
  | .sequence element _ => element.laid
  | .set element _ => element.laid
  | .map key value _ => key.laid ++ value.laid
  | .primitive _ => []
  | .named _ => []
  | .string _ => []
  | .wstring _ => []
  | .fixed _ => []

def memberLaid : List (Member TypeSpec) → List Laid
  | [] => []
  | ⟨_, type, _, _⟩ :: rest => type.laid ++ memberLaid rest

def caseLaid : List (UnionCase TypeSpec) → List Laid
  | [] => []
  | ⟨_, _, type, _, _⟩ :: rest => type.laid ++ caseLaid rest

end

mutual

def Definition.laid : Definition → List Laid
  | ⟨as, kind, _⟩ => kindLaid as kind

def kindLaid (annotations : List AnnotationUse) : DefinitionKind Definition → List Laid
  | .module ⟨_, ds⟩ => allLaid ds
  | .struct t => (TypeSpec.struct t).laid
  | .union t => (TypeSpec.union t).laid
  | .enum t => [.enum annotations t]
  | .bitset t => [.bitset t]
  | .bitmask t => [.bitmask annotations t]
  | .typedef d => d.type.laid ++ d.declarators.map (.typedef d.type)
  | .const d => [.const d]
  | .exception d => .exception d :: memberLaid d.members
  | .native name => [.native name]
  | .interface ⟨name, _, _, body⟩ => .closed name .interface :: exportLaid body
  | .value ⟨name, _, _, _, _, body⟩ => .closed name .value :: exportLaid body
  | .event ⟨name, _, _, _, _, body⟩ => .closed name .event :: exportLaid body
  | .valueBox d => [.closed d.name .valueBox]
  | .component ⟨name, _, _, body⟩ => .closed name .component :: exportLaid body
  | .home ⟨name, _, _, _, _, body⟩ => .closed name .home :: exportLaid body
  | .forward _ => []
  | .typeId _ => []
  | .typePrefix _ => []
  | .annotationDecl _ => []

def allLaid : List Definition → List Laid
  | [] => []
  | d :: ds => d.laid ++ allLaid ds

def exportLaid : List (Export Definition) → List Laid
  | [] => []
  | .definition d :: rest => d.laid ++ exportLaid rest
  | .attribute _ :: rest => exportLaid rest
  | .operation _ :: rest => exportLaid rest
  | .stateMember _ :: rest => exportLaid rest
  | .initializer _ :: rest => exportLaid rest
  | .port _ :: rest => exportLaid rest

end

mutual

/-- What the types written in place in state members declare. -/
def Definition.stateDeclarations : Definition → List Declaration
  | ⟨_, kind, _⟩ => kindStateDeclarations kind

def kindStateDeclarations : DefinitionKind Definition → List Declaration
  | .module ⟨_, ds⟩ => allStateDeclarations ds
  | .interface ⟨_, _, _, body⟩ => exportStateDeclarations body
  | .value ⟨_, _, _, _, _, body⟩ => exportStateDeclarations body
  | .event ⟨_, _, _, _, _, body⟩ => exportStateDeclarations body
  | .component ⟨_, _, _, body⟩ => exportStateDeclarations body
  | .home ⟨_, _, _, _, _, body⟩ => exportStateDeclarations body
  | .struct _ => []
  | .union _ => []
  | .enum _ => []
  | .bitset _ => []
  | .bitmask _ => []
  | .typedef _ => []
  | .const _ => []
  | .exception _ => []
  | .native _ => []
  | .forward _ => []
  | .valueBox _ => []
  | .typeId _ => []
  | .typePrefix _ => []
  | .annotationDecl _ => []

def allStateDeclarations : List Definition → List Declaration
  | [] => []
  | d :: ds => d.stateDeclarations ++ allStateDeclarations ds

def exportStateDeclarations : List (Export Definition) → List Declaration
  | [] => []
  | .definition d :: rest => d.stateDeclarations ++ exportStateDeclarations rest
  | .stateMember m :: rest => m.member.type.declarations ++ exportStateDeclarations rest
  | .attribute _ :: rest => exportStateDeclarations rest
  | .operation _ :: rest => exportStateDeclarations rest
  | .initializer _ :: rest => exportStateDeclarations rest
  | .port _ :: rest => exportStateDeclarations rest

end

def Specification.laid (s : Specification) : List Laid := allLaid s.definitions

def Specification.stateDeclarations (s : Specification) : List Declaration :=
  allStateDeclarations s.definitions

/-! What has a layout is declared. -/

mutual

theorem TypeSpec.declarations_of_laid : (τ : TypeSpec) → ∀ x ∈ τ.laid,
    x.declarations.Sublist τ.declarations
  | .struct ⟨name, base, fields, span⟩, x, mem => by
    rw [TypeSpec.laid, List.mem_cons] at mem
    rcases mem with rfl | mem
    · exact List.Sublist.refl _
    · rw [TypeSpec.declarations]
      exact (memberDeclarations_of_laid fields x mem).cons _
  | .union ⟨name, ⟨as, type, switchSpan⟩, cases, span⟩, x, mem => by
    rw [TypeSpec.laid, List.mem_cons, List.mem_append] at mem
    rcases mem with rfl | mem | mem
    · exact List.Sublist.refl _
    · rw [TypeSpec.declarations]
      exact ((type.declarations_of_laid x mem).trans (List.sublist_append_left _ _)).cons _
    · rw [TypeSpec.declarations]
      exact ((caseDeclarations_of_laid cases x mem).trans (List.sublist_append_right _ _)).cons _
  | .enum t, x, mem => by
    rw [TypeSpec.laid, List.mem_singleton] at mem
    rw [mem, TypeSpec.declarations, Laid.declarations]
  | .bitset t, x, mem => by
    rw [TypeSpec.laid, List.mem_singleton] at mem
    rw [mem, TypeSpec.declarations, Laid.declarations]
  | .bitmask t, x, mem => by
    rw [TypeSpec.laid, List.mem_singleton] at mem
    rw [mem, TypeSpec.declarations, Laid.declarations]
  | .sequence element _, x, mem => by
    rw [TypeSpec.laid] at mem
    rw [TypeSpec.declarations]
    exact element.declarations_of_laid x mem
  | .set element _, x, mem => by
    rw [TypeSpec.laid] at mem
    rw [TypeSpec.declarations]
    exact element.declarations_of_laid x mem
  | .map key value _, x, mem => by
    rw [TypeSpec.laid, List.mem_append] at mem
    rw [TypeSpec.declarations]
    rcases mem with mem | mem
    · exact (key.declarations_of_laid x mem).trans (List.sublist_append_left _ _)
    · exact (value.declarations_of_laid x mem).trans (List.sublist_append_right _ _)
  | .primitive _, _, mem => by simp [TypeSpec.laid] at mem
  | .named _, _, mem => by simp [TypeSpec.laid] at mem
  | .string _, _, mem => by simp [TypeSpec.laid] at mem
  | .wstring _, _, mem => by simp [TypeSpec.laid] at mem
  | .fixed _, _, mem => by simp [TypeSpec.laid] at mem

theorem memberDeclarations_of_laid : (ms : List (Member TypeSpec)) → ∀ x ∈ memberLaid ms,
    x.declarations.Sublist (memberDeclarations ms)
  | [], _, mem => by simp [memberLaid] at mem
  | ⟨_, type, _, _⟩ :: rest, x, mem => by
    rw [memberLaid, List.mem_append] at mem
    rw [memberDeclarations]
    rcases mem with mem | mem
    · exact (type.declarations_of_laid x mem).trans (List.sublist_append_left _ _)
    · exact (memberDeclarations_of_laid rest x mem).trans (List.sublist_append_right _ _)

theorem caseDeclarations_of_laid : (cs : List (UnionCase TypeSpec)) → ∀ x ∈ caseLaid cs,
    x.declarations.Sublist (caseDeclarations cs)
  | [], _, mem => by simp [caseLaid] at mem
  | ⟨_, _, type, _, _⟩ :: rest, x, mem => by
    rw [caseLaid, List.mem_append] at mem
    rw [caseDeclarations]
    rcases mem with mem | mem
    · exact (type.declarations_of_laid x mem).trans (List.sublist_append_left _ _)
    · exact (caseDeclarations_of_laid rest x mem).trans (List.sublist_append_right _ _)

end

theorem Typedef.declarations_of_laid (d : Typedef) (x : Laid)
    (mem : x ∈ d.type.laid ++ d.declarators.map (.typedef d.type)) :
    x.declarations.Sublist d.declarations := by
  rw [Typedef.declarations]
  rcases List.mem_append.mp mem with mem | mem
  · exact (d.type.declarations_of_laid x mem).trans (List.sublist_append_left _ _)
  · obtain ⟨declarator, declared, rfl⟩ := List.mem_map.mp mem
    refine List.Sublist.append (List.Sublist.refl _) (List.singleton_sublist.mpr ?_)
    exact List.mem_map.mpr ⟨declarator, declared, rfl⟩

mutual

theorem Definition.declarations_of_laid : (d : Definition) → ∀ x ∈ d.laid,
    x.declarations.Sublist d.declarations
  | ⟨as, kind, _⟩, x, mem => by
    rw [Definition.laid] at mem
    rw [Definition.declarations]
    exact kindDeclarations_of_laid as kind x mem

theorem kindDeclarations_of_laid (as : List AnnotationUse) :
    (kind : DefinitionKind Definition) → ∀ x ∈ kindLaid as kind,
    x.declarations.Sublist (kindDeclarations kind)
  | .module ⟨_, ds⟩, x, mem => by
    rw [kindLaid] at mem
    rw [kindDeclarations]
    exact (allDeclarations_of_laid ds x mem).cons _
  | .struct t, x, mem => by
    rw [kindLaid] at mem
    rw [kindDeclarations]
    exact TypeSpec.declarations_of_laid _ x mem
  | .union t, x, mem => by
    rw [kindLaid] at mem
    rw [kindDeclarations]
    exact TypeSpec.declarations_of_laid _ x mem
  | .enum t, x, mem => by
    rw [kindLaid, List.mem_singleton] at mem
    rw [mem, kindDeclarations, Laid.declarations]
  | .bitset t, x, mem => by
    rw [kindLaid, List.mem_singleton] at mem
    rw [mem, kindDeclarations, Laid.declarations]
  | .bitmask t, x, mem => by
    rw [kindLaid, List.mem_singleton] at mem
    rw [mem, kindDeclarations, Laid.declarations]
  | .typedef d, x, mem => by
    rw [kindLaid] at mem
    rw [kindDeclarations]
    exact d.declarations_of_laid x mem
  | .const d, x, mem => by
    rw [kindLaid, List.mem_singleton] at mem
    rw [mem, kindDeclarations, Laid.declarations]
  | .exception d, x, mem => by
    rw [kindLaid, List.mem_cons] at mem
    rw [kindDeclarations]
    rcases mem with rfl | mem
    · exact List.Sublist.refl _
    · exact (memberDeclarations_of_laid d.members x mem).cons _
  | .native name, x, mem => by
    rw [kindLaid, List.mem_singleton] at mem
    rw [mem, kindDeclarations, Laid.declarations]
  | .interface ⟨name, _, _, body⟩, x, mem => by
    rw [kindLaid] at mem
    rw [kindDeclarations]
    exact closedDeclarations_of_laid name .interface body x mem
  | .value ⟨name, _, _, _, _, body⟩, x, mem => by
    rw [kindLaid] at mem
    rw [kindDeclarations]
    exact closedDeclarations_of_laid name .value body x mem
  | .event ⟨name, _, _, _, _, body⟩, x, mem => by
    rw [kindLaid] at mem
    rw [kindDeclarations]
    exact closedDeclarations_of_laid name .event body x mem
  | .component ⟨name, _, _, body⟩, x, mem => by
    rw [kindLaid] at mem
    rw [kindDeclarations]
    exact closedDeclarations_of_laid name .component body x mem
  | .home ⟨name, _, _, _, _, body⟩, x, mem => by
    rw [kindLaid] at mem
    rw [kindDeclarations]
    exact closedDeclarations_of_laid name .home body x mem
  | .valueBox d, x, mem => by
    rw [kindLaid, List.mem_singleton] at mem
    rw [mem, kindDeclarations, Laid.declarations]
  | .forward _, _, mem => by simp [kindLaid] at mem
  | .typeId _, _, mem => by simp [kindLaid] at mem
  | .typePrefix _, _, mem => by simp [kindLaid] at mem
  | .annotationDecl _, _, mem => by simp [kindLaid] at mem

theorem closedDeclarations_of_laid (name : Ident) (kind : SymbolKind) :
    (body : List (Export Definition)) → ∀ x ∈ Laid.closed name kind :: exportLaid body,
    x.declarations.Sublist (⟨name, .defined kind⟩ :: exportDeclarations body)
  | body, x, mem => by
    rcases List.mem_cons.mp mem with rfl | mem
    · exact List.singleton_sublist.mpr (by simp)
    · exact (exportDeclarations_of_laid body x mem).cons _

theorem allDeclarations_of_laid : (ds : List Definition) → ∀ x ∈ allLaid ds,
    x.declarations.Sublist (allDeclarations ds)
  | [], _, mem => by simp [allLaid] at mem
  | d :: ds, x, mem => by
    rw [allLaid, List.mem_append] at mem
    rw [allDeclarations]
    rcases mem with mem | mem
    · exact (d.declarations_of_laid x mem).trans (List.sublist_append_left _ _)
    · exact (allDeclarations_of_laid ds x mem).trans (List.sublist_append_right _ _)

theorem exportDeclarations_of_laid : (es : List (Export Definition)) → ∀ x ∈ exportLaid es,
    x.declarations.Sublist (exportDeclarations es)
  | [], _, mem => by simp [exportLaid] at mem
  | .definition d :: rest, x, mem => by
    rw [exportLaid, List.mem_append] at mem
    rw [exportDeclarations]
    rcases mem with mem | mem
    · exact (d.declarations_of_laid x mem).trans (List.sublist_append_left _ _)
    · exact (exportDeclarations_of_laid rest x mem).trans (List.sublist_append_right _ _)
  | .stateMember m :: rest, x, mem => by
    rw [exportLaid] at mem
    rw [exportDeclarations]
    exact (exportDeclarations_of_laid rest x mem).trans (List.sublist_append_right _ _)
  | .attribute _ :: rest, x, mem => by
    rw [exportLaid] at mem
    rw [exportDeclarations]
    exact exportDeclarations_of_laid rest x mem
  | .operation _ :: rest, x, mem => by
    rw [exportLaid] at mem
    rw [exportDeclarations]
    exact exportDeclarations_of_laid rest x mem
  | .initializer _ :: rest, x, mem => by
    rw [exportLaid] at mem
    rw [exportDeclarations]
    exact exportDeclarations_of_laid rest x mem
  | .port _ :: rest, x, mem => by
    rw [exportLaid] at mem
    rw [exportDeclarations]
    exact exportDeclarations_of_laid rest x mem

end

theorem Specification.declarations_of_laid (s : Specification) : ∀ x ∈ s.laid,
    x.declarations.Sublist s.declarations :=
  allDeclarations_of_laid s.definitions

end Idl
