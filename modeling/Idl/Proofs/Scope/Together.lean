import Idl.Proofs.Scope.Moves

/-!
Two builders that enter one tree. A relation between them that every operation keeps holds when the
tree is entered. Main statement: `Keeps.definitions`.
-/

set_option autoImplicit false

namespace Idl.ScopeBuilder

/-- The symbol entered is the same, and the builders are related. -/
def Together (R : ScopeBuilder → ScopeBuilder → Prop) (x y : SymbolId × ScopeBuilder) : Prop :=
  x.1 = y.1 ∧ R x.2 y.2

/-- What is entered within the symbol keeps the builders related. -/
theorem Together.inner {R : ScopeBuilder → ScopeBuilder → Prop} {x y : SymbolId × ScopeBuilder}
    {f : SymbolId → ScopeBuilder → ScopeBuilder} (together : Together R x y)
    (each : ∀ id b c, R b c → R (f id b) (f id c)) : R (f x.1 x.2) (f y.1 y.2) := by
  rw [together.1]
  exact each _ _ _ together.2

/-- Every operation with a name that satisfies `P` keeps builders related, and enters one symbol in
both. -/
structure Keeps (P : Ident → Prop) (R : ScopeBuilder → ScopeBuilder → Prop) : Prop where
  declare : ∀ {b c : ScopeBuilder} (scope : SymbolId) {name : Ident} (kind : SymbolKind), R b c →
    P name → kind ≠ .const → Together R (b.declare scope name kind) (c.declare scope name kind)
  const : ∀ {b c : ScopeBuilder} (scope : SymbolId) {name : Ident}, R b c → P name →
    R (b.enterConst scope name) (c.enterConst scope name)
  openModule : ∀ {b c : ScopeBuilder} (scope : SymbolId) {name : Ident}, R b c → P name →
    Together R (b.openModule scope name) (c.openModule scope name)
  complete : ∀ {b c : ScopeBuilder} (scope : SymbolId) {name : Ident} (kind : ForwardKind), R b c →
    P name → Together R (b.complete scope name kind) (c.complete scope name kind)
  announce : ∀ {b c : ScopeBuilder} (scope : SymbolId) {d : ForwardDecl}, R b c → P d.name →
    R (b.announce scope d) (c.announce scope d)
  enumerator : ∀ {b c : ScopeBuilder} (scope enum : SymbolId) {name : Ident} (ordinal : Nat),
    R b c → P name → R (b.enumerator scope enum name ordinal) (c.enumerator scope enum name ordinal)

namespace Keeps

variable {P : Ident → Prop} {R : ScopeBuilder → ScopeBuilder → Prop} {b c : ScopeBuilder}

theorem foldl {α : Type} (f : ScopeBuilder → α → ScopeBuilder) {xs : List α}
    (each : ∀ x ∈ xs, ∀ b c, R b c → R (f b x) (f c x)) (related : R b c) :
    R (xs.foldl f b) (xs.foldl f c) := by
  induction xs generalizing b c with
  | nil => exact related
  | cons x xs ih =>
    exact ih (fun y mem => each y (List.mem_cons_of_mem x mem))
      (each x (List.mem_cons_self) b c related)

section

variable (keeps : Keeps P R) (scope : SymbolId)
include keeps

theorem enumType {t : EnumType} (related : R b c)
    (named : NamedBy P (listing t.name .enum t.enumerators)) :
    R (b.enumType scope t) (c.enumType scope t) := by
  obtain ⟨owner, values⟩ := namedBy_listing.mp named
  rw [ScopeBuilder.enumType, ScopeBuilder.enumType]
  refine (keeps.declare scope .enum related owner (by decide)).inner
    (f := fun id b => b.enumerators scope id (t.enumerators.map (·.name))) fun id b c related => ?_
  refine foldl (fun b (x : Ident × Nat) => b.enumerator scope id x.1 x.2)
    (fun x mem b c related => keeps.enumerator scope id x.2 related ?_) related
  obtain ⟨v, listed, eq⟩ := List.mem_map.mp (List.fst_mem_of_mem_zipIdx mem)
  rw [← eq]
  exact values v listed

theorem bitmaskType {t : BitmaskType} (related : R b c)
    (named : NamedBy P (listing t.name .bitmask t.values)) :
    R (b.bitmaskType scope t) (c.bitmaskType scope t) := by
  obtain ⟨owner, values⟩ := namedBy_listing.mp named
  rw [ScopeBuilder.bitmaskType, ScopeBuilder.bitmaskType]
  let flag (id : SymbolId) (b : ScopeBuilder) (x : Enumerator × Nat) : ScopeBuilder :=
    (b.declare id x.1.name (.bitValue id x.2)).2
  exact (keeps.declare scope .bitmask related owner (by decide)).inner
    (f := fun id b => t.values.zipIdx.foldl (flag id) b) fun id b c related =>
      foldl (flag id) (fun x mem b c related => (keeps.declare id _ related
        (values x.1 (List.fst_mem_of_mem_zipIdx mem)) (by simp)).2) related

end

mutual

theorem typeSpec (keeps : Keeps P R) (scope : SymbolId) : (τ : TypeSpec) →
    (b c : ScopeBuilder) → R b c → NamedBy P τ.declarations →
    R (typeSpec scope τ b) (typeSpec scope τ c)
  | .struct ⟨name, _, fields, _⟩, b, c, related, named => by
    rw [ScopeBuilder.typeSpec, ScopeBuilder.typeSpec]
    rw [TypeSpec.declarations, namedBy_cons] at named
    exact (keeps.complete scope .struct related named.1).inner
      (f := fun id => ScopeBuilder.members id fields) fun id b c related =>
        members keeps id fields b c related named.2
  | .union ⟨name, ⟨_, type, _⟩, cases, _⟩, b, c, related, named => by
    rw [ScopeBuilder.typeSpec, ScopeBuilder.typeSpec]
    rw [TypeSpec.declarations, namedBy_cons, namedBy_append] at named
    exact (keeps.complete scope .union related named.1).inner
      (f := fun id b => ScopeBuilder.unionCases id cases (ScopeBuilder.typeSpec id type b))
      fun id b c related => unionCases keeps id cases _ _
        (typeSpec keeps id type b c related named.2.1) named.2.2
  | .enum t, b, c, related, named => by
    rw [ScopeBuilder.typeSpec, ScopeBuilder.typeSpec]
    rw [TypeSpec.declarations] at named
    exact keeps.enumType scope related named
  | .bitset t, b, c, related, named => by
    rw [ScopeBuilder.typeSpec, ScopeBuilder.typeSpec]
    rw [TypeSpec.declarations, namedBy_cons] at named
    exact (keeps.declare scope .bitset related named.1 (by decide)).2
  | .bitmask t, b, c, related, named => by
    rw [ScopeBuilder.typeSpec, ScopeBuilder.typeSpec]
    rw [TypeSpec.declarations] at named
    exact keeps.bitmaskType scope related named
  | .sequence element _, b, c, related, named => by
    rw [ScopeBuilder.typeSpec, ScopeBuilder.typeSpec]
    rw [TypeSpec.declarations] at named
    exact typeSpec keeps scope element b c related named
  | .set element _, b, c, related, named => by
    rw [ScopeBuilder.typeSpec, ScopeBuilder.typeSpec]
    rw [TypeSpec.declarations] at named
    exact typeSpec keeps scope element b c related named
  | .map key value _, b, c, related, named => by
    rw [ScopeBuilder.typeSpec, ScopeBuilder.typeSpec]
    rw [TypeSpec.declarations, namedBy_append] at named
    exact typeSpec keeps scope value _ _ (typeSpec keeps scope key b c related named.1) named.2
  | .primitive _, b, c, related, _ => by
    rwa [ScopeBuilder.typeSpec, ScopeBuilder.typeSpec]
  | .named _, b, c, related, _ => by rwa [ScopeBuilder.typeSpec, ScopeBuilder.typeSpec]
  | .string _, b, c, related, _ => by rwa [ScopeBuilder.typeSpec, ScopeBuilder.typeSpec]
  | .wstring _, b, c, related, _ => by rwa [ScopeBuilder.typeSpec, ScopeBuilder.typeSpec]
  | .fixed _, b, c, related, _ => by rwa [ScopeBuilder.typeSpec, ScopeBuilder.typeSpec]

theorem members (keeps : Keeps P R) (scope : SymbolId) : (ms : List (Member TypeSpec)) →
    (b c : ScopeBuilder) → R b c → NamedBy P (memberDeclarations ms) →
    R (members scope ms b) (members scope ms c)
  | [], _, _, related, _ => by rwa [ScopeBuilder.members, ScopeBuilder.members]
  | ⟨_, type, _, _⟩ :: rest, b, c, related, named => by
    rw [ScopeBuilder.members, ScopeBuilder.members]
    rw [memberDeclarations, namedBy_append] at named
    exact members keeps scope rest _ _ (typeSpec keeps scope type b c related named.1) named.2

theorem unionCases (keeps : Keeps P R) (scope : SymbolId) : (cs : List (UnionCase TypeSpec)) →
    (b c : ScopeBuilder) → R b c → NamedBy P (caseDeclarations cs) →
    R (unionCases scope cs b) (unionCases scope cs c)
  | [], _, _, related, _ => by rwa [ScopeBuilder.unionCases, ScopeBuilder.unionCases]
  | ⟨_, _, type, _, _⟩ :: rest, b, c, related, named => by
    rw [ScopeBuilder.unionCases, ScopeBuilder.unionCases]
    rw [caseDeclarations, namedBy_append] at named
    exact unionCases keeps scope rest _ _ (typeSpec keeps scope type b c related named.1) named.2

end

theorem typedef (keeps : Keeps P R) (scope : SymbolId) {d : Typedef} (related : R b c)
    (named : NamedBy P d.declarations) : R (typedef scope d b) (typedef scope d c) := by
  rw [ScopeBuilder.typedef, ScopeBuilder.typedef]
  rw [Typedef.declarations, namedBy_append] at named
  refine foldl (fun b (x : Declarator) => (b.declare scope x.name .typedef).2)
    (fun x mem b c related => (keeps.declare scope .typedef related ?_ (by decide)).2)
    (keeps.typeSpec scope d.type b c related named.1)
  exact named.2 ⟨x.name, .defined .typedef⟩ (List.mem_map_of_mem mem)

mutual

theorem definition (keeps : Keeps P R) (scope : SymbolId) : (d : Definition) →
    (b c : ScopeBuilder) → R b c → NamedBy P d.declarations →
    R (definition scope d b) (definition scope d c)
  | ⟨_, kind, _⟩, b, c, related, named => by
    rw [ScopeBuilder.definition, ScopeBuilder.definition]
    rw [Definition.declarations] at named
    exact definitionKind keeps scope kind b c related named

theorem definitionKind (keeps : Keeps P R) (scope : SymbolId) : (kind : DefinitionKind Definition) →
    (b c : ScopeBuilder) → R b c → NamedBy P (kindDeclarations kind) →
    R (definitionKind scope kind b) (definitionKind scope kind c)
  | .module ⟨name, ds⟩, b, c, related, named => by
    rw [ScopeBuilder.definitionKind, ScopeBuilder.definitionKind]
    rw [kindDeclarations, namedBy_cons] at named
    exact (keeps.openModule scope related named.1).inner
      (f := fun id => ScopeBuilder.definitions id ds) fun id b c related =>
        definitions keeps id ds b c related named.2
  | .struct t, b, c, related, named => by
    rw [ScopeBuilder.definitionKind, ScopeBuilder.definitionKind]
    rw [kindDeclarations] at named
    exact keeps.typeSpec scope (.struct t) b c related named
  | .union t, b, c, related, named => by
    rw [ScopeBuilder.definitionKind, ScopeBuilder.definitionKind]
    rw [kindDeclarations] at named
    exact keeps.typeSpec scope (.union t) b c related named
  | .enum t, b, c, related, named => by
    rw [ScopeBuilder.definitionKind, ScopeBuilder.definitionKind]
    rw [kindDeclarations] at named
    exact keeps.enumType scope related named
  | .bitset t, b, c, related, named => by
    rw [ScopeBuilder.definitionKind, ScopeBuilder.definitionKind]
    rw [kindDeclarations, namedBy_cons] at named
    exact (keeps.declare scope .bitset related named.1 (by decide)).2
  | .bitmask t, b, c, related, named => by
    rw [ScopeBuilder.definitionKind, ScopeBuilder.definitionKind]
    rw [kindDeclarations] at named
    exact keeps.bitmaskType scope related named
  | .typedef d, b, c, related, named => by
    rw [ScopeBuilder.definitionKind, ScopeBuilder.definitionKind]
    rw [kindDeclarations] at named
    exact keeps.typedef scope related named
  | .const d, b, c, related, named => by
    rw [ScopeBuilder.definitionKind, ScopeBuilder.definitionKind]
    rw [kindDeclarations, namedBy_cons] at named
    exact keeps.const scope related named.1
  | .exception d, b, c, related, named => by
    rw [ScopeBuilder.definitionKind, ScopeBuilder.definitionKind]
    rw [kindDeclarations, namedBy_cons] at named
    exact (keeps.declare scope .exception related named.1 (by decide)).inner
      (f := fun id => ScopeBuilder.members id d.members) fun id b c related =>
        keeps.members id d.members b c related named.2
  | .native name, b, c, related, named => by
    rw [ScopeBuilder.definitionKind, ScopeBuilder.definitionKind]
    rw [kindDeclarations, namedBy_cons] at named
    exact (keeps.declare scope .native related named.1 (by decide)).2
  | .forward d, b, c, related, named => by
    rw [ScopeBuilder.definitionKind, ScopeBuilder.definitionKind]
    rw [kindDeclarations, namedBy_cons] at named
    exact keeps.announce scope related named.1
  | .interface ⟨name, _, _, body⟩, b, c, related, named => by
    rw [ScopeBuilder.definitionKind, ScopeBuilder.definitionKind]
    rw [kindDeclarations, namedBy_cons] at named
    exact (keeps.complete scope .interface related named.1).inner
      (f := fun id => ScopeBuilder.exports id body) fun id b c related =>
        exports keeps id body b c related named.2
  | .value ⟨name, _, _, _, _, body⟩, b, c, related, named => by
    rw [ScopeBuilder.definitionKind, ScopeBuilder.definitionKind]
    rw [kindDeclarations, namedBy_cons] at named
    exact (keeps.complete scope .value related named.1).inner
      (f := fun id => ScopeBuilder.exports id body) fun id b c related =>
        exports keeps id body b c related named.2
  | .event ⟨name, _, _, _, _, body⟩, b, c, related, named => by
    rw [ScopeBuilder.definitionKind, ScopeBuilder.definitionKind]
    rw [kindDeclarations, namedBy_cons] at named
    exact (keeps.complete scope .event related named.1).inner
      (f := fun id => ScopeBuilder.exports id body) fun id b c related =>
        exports keeps id body b c related named.2
  | .valueBox d, b, c, related, named => by
    rw [ScopeBuilder.definitionKind, ScopeBuilder.definitionKind]
    rw [kindDeclarations, namedBy_cons] at named
    exact (keeps.declare scope .valueBox related named.1 (by decide)).2
  | .component ⟨name, _, _, body⟩, b, c, related, named => by
    rw [ScopeBuilder.definitionKind, ScopeBuilder.definitionKind]
    rw [kindDeclarations, namedBy_cons] at named
    exact (keeps.complete scope .component related named.1).inner
      (f := fun id => ScopeBuilder.exports id body) fun id b c related =>
        exports keeps id body b c related named.2
  | .home ⟨name, _, _, _, _, body⟩, b, c, related, named => by
    rw [ScopeBuilder.definitionKind, ScopeBuilder.definitionKind]
    rw [kindDeclarations, namedBy_cons] at named
    exact (keeps.declare scope .home related named.1 (by decide)).inner
      (f := fun id => ScopeBuilder.exports id body) fun id b c related =>
        exports keeps id body b c related named.2
  | .typeId _, b, c, related, _ => by
    rwa [ScopeBuilder.definitionKind, ScopeBuilder.definitionKind]
  | .typePrefix _, b, c, related, _ => by
    rwa [ScopeBuilder.definitionKind, ScopeBuilder.definitionKind]
  | .annotationDecl _, b, c, related, _ => by
    rwa [ScopeBuilder.definitionKind, ScopeBuilder.definitionKind]

theorem definitions (keeps : Keeps P R) (scope : SymbolId) : (ds : List Definition) →
    (b c : ScopeBuilder) → R b c → NamedBy P (allDeclarations ds) →
    R (definitions scope ds b) (definitions scope ds c)
  | [], _, _, related, _ => by rwa [ScopeBuilder.definitions, ScopeBuilder.definitions]
  | d :: rest, b, c, related, named => by
    rw [ScopeBuilder.definitions, ScopeBuilder.definitions]
    rw [allDeclarations, namedBy_append] at named
    exact definitions keeps scope rest _ _ (definition keeps scope d b c related named.1) named.2

theorem exports (keeps : Keeps P R) (scope : SymbolId) : (body : List (Export Definition)) →
    (b c : ScopeBuilder) → R b c → NamedBy P (exportDeclarations body) →
    R (exports scope body b) (exports scope body c)
  | [], _, _, related, _ => by rwa [ScopeBuilder.exports, ScopeBuilder.exports]
  | .definition d :: rest, b, c, related, named => by
    rw [ScopeBuilder.exports, ScopeBuilder.exports]
    rw [exportDeclarations, namedBy_append] at named
    exact exports keeps scope rest _ _ (definition keeps scope d b c related named.1) named.2
  | .stateMember m :: rest, b, c, related, named => by
    rw [ScopeBuilder.exports, ScopeBuilder.exports]
    rw [exportDeclarations, namedBy_append] at named
    exact exports keeps scope rest _ _ (keeps.typeSpec scope m.member.type b c related named.1)
      named.2
  | .attribute _ :: rest, b, c, related, named => by
    rw [ScopeBuilder.exports, ScopeBuilder.exports]
    rw [exportDeclarations] at named
    exact exports keeps scope rest b c related named
  | .operation _ :: rest, b, c, related, named => by
    rw [ScopeBuilder.exports, ScopeBuilder.exports]
    rw [exportDeclarations] at named
    exact exports keeps scope rest b c related named
  | .initializer _ :: rest, b, c, related, named => by
    rw [ScopeBuilder.exports, ScopeBuilder.exports]
    rw [exportDeclarations] at named
    exact exports keeps scope rest b c related named
  | .port _ :: rest, b, c, related, named => by
    rw [ScopeBuilder.exports, ScopeBuilder.exports]
    rw [exportDeclarations] at named
    exact exports keeps scope rest b c related named

end

end Keeps

end Idl.ScopeBuilder
