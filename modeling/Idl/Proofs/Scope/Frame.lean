import Idl.Const.Typing
import Idl.Proofs.Scope.Table

/-!
What binding leaves of a symbol table: everything but the values of constants and the types behind
typedefs. Names resolve the same in two tables of one frame.
-/

set_option autoImplicit false

namespace Idl

/-- The symbol without what binding puts in. -/
def Symbol.frame (s : Symbol) : Symbol := { s with constant := .absent, aliased := none }

/-- The tables have the same symbols but for what binding puts in. -/
def SameSymbols (t u : SymbolTable) : Prop := ∀ id, (u.symbol id).frame = (t.symbol id).frame

namespace SameSymbols

variable {t u : SymbolTable}

/-- An aspect that binding does not touch is the same in both tables. -/
theorem aspect (same : SameSymbols t u) {α : Type} (f : Symbol → α) (frame : ∀ s, f s.frame = f s)
    (id : SymbolId) : f (u.symbol id) = f (t.symbol id) := by
  rw [← frame (u.symbol id), same id, frame]

theorem kind (same : SameSymbols t u) (id : SymbolId) : u.kind id = t.kind id :=
  same.aspect Symbol.kind (fun _ => rfl) id

theorem member? (same : SameSymbols t u) (id : SymbolId) (name : String) :
    u.member? id name = t.member? id name :=
  congrArg (List.lookup name) (same.aspect Symbol.members (fun _ => rfl) id)

theorem chain (same : SameSymbols t u) (id : SymbolId) : u.chain id = t.chain id := by
  induction id using Nat.strongRecOn with
  | _ id ih =>
    have parent := same.aspect Symbol.parent (fun _ => rfl) id
    rw [SymbolTable.chain, SymbolTable.chain, parent]
    split
    · split
      · next smaller => rw [ih _ smaller]
      · rfl
    · rfl

theorem outward? (same : SameSymbols t u) (id : SymbolId) (name : String) :
    u.outward? id name = t.outward? id name := by
  rw [SymbolTable.outward?, SymbolTable.outward?, same.chain]
  exact congrArg (fun f => (t.chain id).findSome? f) (funext fun i => same.member? i name)

theorem qualifiedName (same : SameSymbols t u) (id : SymbolId) :
    u.qualifiedName id = t.qualifiedName id := by
  have names : (fun i => (u.symbol i).name) = fun i => (t.symbol i).name :=
    funext fun i => same.aspect Symbol.name (fun _ => rfl) i
  simp only [SymbolTable.qualifiedName, same.chain, same.kind, names]

theorem descend (same : SameSymbols t u) (id : SymbolId) (path : List String) :
    u.descend id path = t.descend id path := by
  induction path generalizing id with
  | nil => rw [SymbolTable.descend, SymbolTable.descend]
  | cons segment rest ih =>
    rw [SymbolTable.descend, SymbolTable.descend, same.member?, same.qualifiedName]
    split
    · exact ih _
    · rfl

theorem resolve (same : SameSymbols t u) (scope : SymbolId) (name : ScopedName) :
    u.resolve scope name = t.resolve scope name := by
  simp only [SymbolTable.resolve, same.member?, same.outward?, same.descend]

end SameSymbols

/-- The tables differ in values of constants and types of typedefs alone. -/
structure SameFrame (t u : SymbolTable) : Prop where
  symbols : ∀ id, (u.symbol id).frame = (t.symbol id).frame
  size : u.size = t.size
  defining : u.defining = t.defining
  redeclarations : u.redeclarations = t.redeclarations

namespace SameFrame

variable {t u v : SymbolTable}

theorem refl (t : SymbolTable) : SameFrame t t := ⟨fun _ => rfl, rfl, rfl, rfl⟩

theorem trans (first : SameFrame t u) (second : SameFrame u v) : SameFrame t v :=
  ⟨fun id => (second.symbols id).trans (first.symbols id), second.size.trans first.size,
    second.defining.trans first.defining, second.redeclarations.trans first.redeclarations⟩

theorem modify (t : SymbolTable) (id : SymbolId) (f : Symbol → Symbol)
    (keeps : ∀ s, (f s).frame = s.frame) : SameFrame t (t.modify id f) :=
  ⟨fun i => t.modify_aspect Symbol.frame id i f keeps, t.size_modify id f, rfl, rfl⟩

theorem setConstant (t : SymbolTable) (id : SymbolId) (slot : ConstSlot) :
    SameFrame t (t.setConstant id slot) :=
  modify t id _ fun _ => rfl

theorem setAlias (t : SymbolTable) (id : SymbolId) (a : Alias) : SameFrame t (t.setAlias id a) :=
  modify t id _ fun _ => rfl

theorem same (same : SameFrame t u) : SameSymbols t u := same.symbols

/-- An aspect that binding does not touch is the same in both tables. -/
theorem aspect (same : SameFrame t u) {α : Type} (f : Symbol → α) (frame : ∀ s, f s.frame = f s)
    (id : SymbolId) : f (u.symbol id) = f (t.symbol id) :=
  same.same.aspect f frame id

theorem kind (same : SameFrame t u) (id : SymbolId) : u.kind id = t.kind id := same.same.kind id

theorem isForward (same : SameFrame t u) (id : SymbolId) :
    (u.symbol id).isForward = (t.symbol id).isForward :=
  same.aspect Symbol.isForward (fun _ => rfl) id

theorem member? (same : SameFrame t u) (id : SymbolId) (name : String) :
    u.member? id name = t.member? id name :=
  same.same.member? id name

theorem definedAt? (same : SameFrame t u) (span : Span) : u.definedAt? span = t.definedAt? span :=
  congrArg (List.lookup span.offset) same.defining

theorem qualifiedName (same : SameFrame t u) (id : SymbolId) :
    u.qualifiedName id = t.qualifiedName id :=
  same.same.qualifiedName id

theorem resolve (same : SameFrame t u) (scope : SymbolId) (name : ScopedName) :
    u.resolve scope name = t.resolve scope name :=
  same.same.resolve scope name

end SameFrame

/-! What a type is at its head, for constants and labels. -/

/-- The part of a type that decides what constants it admits. -/
inductive TypeHead
  | primitive (kind : Primitive)
  | named (target : Option SymbolId)
  | string
  | wstring
  | fixed
  | enum (span : Span)
  | other
deriving DecidableEq

def TypeSpec.head : TypeSpec → TypeHead
  | .primitive k => .primitive k
  | .named type => .named type.target
  | .string _ => .string
  | .wstring _ => .wstring
  | .fixed _ => .fixed
  | .enum e => .enum e.name.span
  | .sequence _ _ => .other
  | .set _ _ => .other
  | .map _ _ _ => .other
  | .struct _ => .other
  | .union _ => .other
  | .bitset _ => .other
  | .bitmask _ => .other

/-- What an alias says of constants: the head of its type, and whether it adds dimensions. -/
def Alias.outline (a : Alias) : TypeHead × Bool := (a.type.head, a.isArray)

/-- The tables have one frame, and their typedefs name types of one head. -/
structure SameOutline (t u : SymbolTable) : Prop where
  frame : SameFrame t u
  aliases : ∀ id, (u.symbol id).aliased.map Alias.outline = (t.symbol id).aliased.map Alias.outline

namespace SameOutline

variable {t u v : SymbolTable}

theorem refl (t : SymbolTable) : SameOutline t t := ⟨SameFrame.refl t, fun _ => rfl⟩

theorem trans (first : SameOutline t u) (second : SameOutline u v) : SameOutline t v :=
  ⟨first.frame.trans second.frame, fun id => (second.aliases id).trans (first.aliases id)⟩

theorem setConstant (t : SymbolTable) (id : SymbolId) (slot : ConstSlot) :
    SameOutline t (t.setConstant id slot) :=
  ⟨SameFrame.setConstant t id slot, fun i =>
    congrArg (Option.map Alias.outline) (t.modify_aspect Symbol.aliased id i _ fun _ => rfl)⟩

end SameOutline

namespace SymbolTable

/-- What a type of some head admits, given what aliases admit. -/
def headType? (t : SymbolTable) (behind : SymbolId → Option ConstType) :
    TypeHead → Option ConstType
  | .primitive k => k.constType?
  | .string => some .string
  | .wstring => some .wstring
  | .fixed => some .fixed
  | .enum span => (t.definedAt? span).map .enum
  | .named none => none
  | .named (some id) =>
    match t.kind id with
    | .enum => some (.enum id)
    | .typedef => behind id
    | _ => none
  | .other => none

/-- What a typedef admits: what its type does, unless it adds dimensions. -/
def aliasTypeWithin? (t : SymbolTable) (fuel : Nat) (id : SymbolId) : Option ConstType :=
  match (t.symbol id).aliased with
  | some a => if a.isArray then none else t.constTypeWithin? fuel a.type
  | none => none

theorem constTypeWithin?_succ (t : SymbolTable) (fuel : Nat) (τ : TypeSpec) :
    t.constTypeWithin? (fuel + 1) τ = t.headType? (t.aliasTypeWithin? fuel) τ.head := by
  cases τ with
  | named type =>
    rw [constTypeWithin?, TypeSpec.head]
    cases type.target with
    | none => rfl
    | some id => rfl
  | _ => rfl

theorem constTypeWithin?_congr {t u : SymbolTable} (same : SameOutline t u) (fuel : Nat)
    {τ σ : TypeSpec} (heads : τ.head = σ.head) :
    u.constTypeWithin? fuel τ = t.constTypeWithin? fuel σ := by
  induction fuel generalizing τ σ with
  | zero => rfl
  | succ fuel ih =>
    have behind (id : SymbolId) : u.aliasTypeWithin? fuel id = t.aliasTypeWithin? fuel id := by
      have outline := same.aliases id
      rw [aliasTypeWithin?, aliasTypeWithin?]
      cases mine : (u.symbol id).aliased with
      | none =>
        rw [mine] at outline
        cases other : (t.symbol id).aliased with
        | none => rfl
        | some b => rw [other] at outline; cases outline
      | some a =>
        rw [mine] at outline
        cases other : (t.symbol id).aliased with
        | none => rw [other] at outline; cases outline
        | some b =>
          rw [other, Option.map_some, Option.map_some, Option.some_inj, Alias.outline,
            Alias.outline, Prod.mk.injEq] at outline
          simp only [outline.2, ih outline.1]
    rw [constTypeWithin?_succ, constTypeWithin?_succ, heads]
    cases σ.head with
    | named target =>
      cases target with
      | none => rfl
      | some id => simp only [headType?, same.frame.kind, behind]
    | enum span => simp only [headType?, same.frame.definedAt?]
    | _ => rfl

theorem constType?_congr {t u : SymbolTable} (same : SameOutline t u) {τ σ : TypeSpec}
    (heads : τ.head = σ.head) : u.constType? τ = t.constType? σ :=
  constTypeWithin?_congr same maxAliasDepth heads

theorem discriminantType?_congr {t u : SymbolTable} (same : SameOutline t u) {τ σ : TypeSpec}
    (heads : τ.head = σ.head) : u.discriminantType? τ = t.discriminantType? σ :=
  congrArg (Option.filter _) (constType?_congr same heads)

end SymbolTable

end Idl
