import Idl.Proofs.Binding.Alias
import Idl.Proofs.Binding.Blind
import Idl.Proofs.Binding.EchoUnit
import Idl.Proofs.Scope.Inventory

/-!
Binding over a table that forgets a place. A unit without an identifier there is bound the same:
its names get the same symbols and its constants the same values, with the same errors. Main
statement: `bindUnit_forget`.
-/

set_option autoImplicit false

namespace Idl

namespace SymbolTable.AliasesAvoid

variable {place : Nat} {t : SymbolTable}

theorem setConstant (aliases : t.AliasesAvoid place) (id : SymbolId) (slot : ConstSlot) :
    (t.setConstant id slot).AliasesAvoid place := fun i a found =>
  aliases i a ((t.modify_aspect Symbol.aliased id i (fun s => { s with constant := slot })
    fun _ => rfl).symm.trans found)

theorem setAlias (aliases : t.AliasesAvoid place) (id : SymbolId) {a : Alias}
    (avoids : a.type.Avoids place) : (t.setAlias id a).AliasesAvoid place := by
  intro i other found
  rw [SymbolTable.setAlias, symbol_modify] at found
  split at found
  · cases found
    exact avoids
  · exact aliases i other found

end SymbolTable.AliasesAvoid

namespace Binding

variable {place : Nat}

/-! Typedefs and constants. -/

theorem aliasTo_forget (type : TypeSpec) (t : SymbolTable) {d : Declarator}
    (avoids : d.name.Avoids place) :
    aliasTo type (t.forget place) d = (aliasTo type t d).forget place := by
  rw [aliasTo, aliasTo, t.definedAt?_forget avoids]
  split <;> rfl

theorem aliasesAvoid_aliasTo {type : TypeSpec} (type_avoids : type.Avoids place) {t : SymbolTable}
    (aliases : t.AliasesAvoid place) (d : Declarator) : (aliasTo type t d).AliasesAvoid place := by
  rw [aliasTo]
  split
  · exact aliases.setAlias _ type_avoids
  · exact aliases

section

variable (scope : SymbolId)

theorem blind_typedefDeclarator {type : TypeSpec} (type_avoids : type.Avoids place)
    {d : Declarator} (avoids : d.name.Avoids place) :
    Blind place (typedefDeclarator scope type d) fun d => d.name.Avoids place := by
  refine (blind_declarator scope d).bind fun e same => ?_
  have avoids : e.name.Avoids place := by rwa [same]
  exact (Blind.changeTable (fun t => aliasTo_forget type t avoids) fun t aliases =>
    aliasesAvoid_aliasTo type_avoids aliases e).bind fun _ _ => .pure avoids

theorem namedBy_typedef {d : Typedef} : NamedBy (Ident.Avoids place) d.declarations ↔
    d.type.Avoids place ∧ ∀ x ∈ d.declarators, x.name.Avoids place := by
  rw [Typedef.declarations, namedBy_append]
  exact and_congr_right fun _ => List.forall_mem_map

theorem blind_typedef {d : Typedef} (named : NamedBy (Ident.Avoids place) d.declarations) :
    Blind place (typedef scope d) fun d => NamedBy (Ident.Avoids place) d.declarations := by
  obtain ⟨type, names⟩ := namedBy_typedef.mp named
  exact (blind_typeSpec scope d.type type).bind fun _ τ =>
    (Blind.mapM fun x mem => blind_typedefDeclarator scope τ (names x mem)).bind fun _ names =>
    .pure (namedBy_typedef.mpr ⟨τ, names⟩)

theorem constOutcome_forget {type : TypeSpec} (avoids : type.Avoids place) (name : Ident)
    {t : SymbolTable} (aliases : t.AliasesAvoid place) (e : ConstExpr) :
    constOutcome scope type name (t.forget place) e = constOutcome scope type name t e := by
  simp only [constOutcome, SymbolTable.constType?_forget aliases avoids,
    evaluate_congr_symbols t.sameSymbols_forget fun _ => rfl]

theorem settled_forget (t : SymbolTable) {name : Ident} (avoids : name.Avoids place)
    (slot : ConstSlot) :
    settled (t.forget place) name slot = (settled t name slot).forget place := by
  rw [settled, settled, t.definedAt?_forget avoids]
  split <;> rfl

theorem aliasesAvoid_settled {t : SymbolTable} (aliases : t.AliasesAvoid place) (name : Ident)
    (slot : ConstSlot) : (settled t name slot).AliasesAvoid place := by
  rw [settled]
  split
  · exact aliases.setConstant _ slot
  · exact aliases

theorem blind_settleConst {type : TypeSpec} (type_avoids : type.Avoids place) {name : Ident}
    (avoids : name.Avoids place) (e : ConstExpr) :
    Blind place (settleConst scope type name e) fun _ => True := by
  intro b aliases
  have outcome : constOutcome scope type name (b.forget place).table e =
      constOutcome scope type name b.table e := constOutcome_forget scope type_avoids name aliases e
  rw [run_settleConst, run_settleConst, outcome]
  refine ⟨?_, aliasesAvoid_settled aliases name _, trivial⟩
  exact congrArg (fun t => (_, (⟨t, _⟩ : Binding))) (settled_forget b.table avoids _)

theorem blind_constDecl {d : ConstDecl} (avoids : d.name.Avoids place)
    (type_avoids : d.type.Avoids place) :
    Blind place (constDecl scope d) fun d => d.name.Avoids place ∧ d.type.Avoids place := by
  obtain ⟨type, name, value⟩ := d
  rw [constDecl_eq_settleConst]
  exact (blind_typeSpec scope type type_avoids).bind fun _ τ =>
    (blind_settleConst scope τ avoids value).bind fun _ _ => .pure ⟨avoids, τ⟩

theorem blind_stateMember {m : StateMember} (avoids : m.member.type.Avoids place) :
    Blind place (stateMember scope m) fun m => m.member.type.Avoids place := by
  have single (m : Member TypeSpec) :
      NamedBy (Ident.Avoids place) (memberDeclarations [m]) ↔ m.type.Avoids place := by
    rw [memberDeclarations, memberDeclarations, List.append_nil]
    rfl
  refine (blind_members scope [m.member] ((single _).mpr avoids)).bind fun ms named => ?_
  cases ms with
  | nil => exact .pure avoids
  | cons member rest =>
    rw [memberDeclarations, namedBy_append] at named
    exact .pure named.1

end

/-! Definitions. -/

mutual

theorem blind_definition (scope : SymbolId) : (d : Definition) →
    NamedBy (Ident.Avoids place) d.inventory →
    Blind place (definition scope d) fun d => NamedBy (Ident.Avoids place) d.inventory
  | ⟨as, kind, span⟩, named => by
    rw [Definition.inventory] at named
    rw [definition]
    exact (blind_annotations scope as).bind fun _ _ =>
      (blind_definitionKind scope kind named).bind fun _ named =>
      .pure (by rwa [Definition.inventory])

theorem blind_definitionKind (scope : SymbolId) : (kind : DefinitionKind Definition) →
    NamedBy (Ident.Avoids place) (kindInventory kind) →
    Blind place (definitionKind scope kind) fun kind =>
      NamedBy (Ident.Avoids place) (kindInventory kind)
  | .module ⟨name, ds⟩, named => by
    rw [definitionKind]
    have avoids := named
    rw [kindInventory, namedBy_cons] at avoids
    refine (Blind.look fun t _ => t.definedAt?_forget avoids.1).bind fun id _ => ?_
    cases id with
    | none => exact .pure named
    | some id =>
      refine (blind_definitions id ds avoids.2).bind fun _ all => .pure ?_
      rw [kindInventory]
      exact namedBy_cons.mpr ⟨avoids.1, all⟩
  | .struct t, named => by
    rw [kindInventory] at named
    rw [definitionKind]
    exact (blind_structType scope t named).bind fun _ named => .pure (by rwa [kindInventory])
  | .union t, named => by
    rw [kindInventory] at named
    rw [definitionKind]
    exact (blind_unionType scope t named).bind fun _ named => .pure (by rwa [kindInventory])
  | .enum t, named => by
    rw [kindInventory] at named
    rw [definitionKind]
    exact (blind_enumType scope named).bind fun _ named => .pure (by rwa [kindInventory])
  | .bitset t, named => by
    rw [kindInventory, namedBy_cons] at named
    rw [definitionKind]
    refine (blind_bitsetType scope named.1).bind fun _ name => .pure ?_
    rw [kindInventory]
    exact namedBy_cons.mpr ⟨name, named.2⟩
  | .bitmask t, named => by
    rw [kindInventory] at named
    rw [definitionKind]
    exact (blind_bitmaskType scope named).bind fun _ named => .pure (by rwa [kindInventory])
  | .typedef d, named => by
    rw [kindInventory] at named
    rw [definitionKind]
    exact (blind_typedef scope named).bind fun _ named => .pure (by rwa [kindInventory])
  | .const d, named => by
    rw [kindInventory, namedBy_cons] at named
    rw [definitionKind]
    refine (blind_constDecl scope named.1 named.2).bind fun _ avoids => .pure ?_
    rw [kindInventory]
    exact namedBy_cons.mpr avoids
  | .exception d, named => by
    rw [kindInventory, namedBy_cons] at named
    rw [definitionKind]
    refine (blind_scopeOf scope named.1).bind fun id _ =>
      (blind_members id d.members named.2).bind fun _ fields => .pure ?_
    rw [kindInventory]
    exact namedBy_cons.mpr ⟨named.1, fields⟩
  | .interface ⟨name, q, bases, body⟩, named => by
    rw [kindInventory, namedBy_cons] at named
    rw [definitionKind]
    refine (blind_scopeOf scope named.1).bind fun id _ =>
      (blind_exports id body named.2).bind fun _ body => .pure ?_
    rw [kindInventory]
    exact namedBy_cons.mpr ⟨named.1, body⟩
  | .value ⟨name, q, truncatable, bases, supports, body⟩, named => by
    rw [kindInventory, namedBy_cons] at named
    rw [definitionKind]
    refine (blind_scopeOf scope named.1).bind fun id _ =>
      (blind_exports id body named.2).bind fun _ body => .pure ?_
    rw [kindInventory]
    exact namedBy_cons.mpr ⟨named.1, body⟩
  | .event ⟨name, q, truncatable, bases, supports, body⟩, named => by
    rw [kindInventory, namedBy_cons] at named
    rw [definitionKind]
    refine (blind_scopeOf scope named.1).bind fun id _ =>
      (blind_exports id body named.2).bind fun _ body => .pure ?_
    rw [kindInventory]
    exact namedBy_cons.mpr ⟨named.1, body⟩
  | .valueBox d, named => by
    rw [kindInventory, namedBy_cons] at named
    rw [definitionKind]
    refine (blind_typeSpec scope d.type named.2).bind fun _ τ => .pure ?_
    rw [kindInventory]
    exact namedBy_cons.mpr ⟨named.1, τ⟩
  | .component ⟨name, b, supports, body⟩, named => by
    rw [kindInventory, namedBy_cons] at named
    rw [definitionKind]
    refine (blind_scopeOf scope named.1).bind fun id _ =>
      (blind_exports id body named.2).bind fun _ body => .pure ?_
    rw [kindInventory]
    exact namedBy_cons.mpr ⟨named.1, body⟩
  | .home ⟨name, b, supports, manages, key, body⟩, named => by
    rw [kindInventory, namedBy_cons] at named
    rw [definitionKind]
    refine (blind_scopeOf scope named.1).bind fun id _ =>
      (blind_exports id body named.2).bind fun _ body => .pure ?_
    rw [kindInventory]
    exact namedBy_cons.mpr ⟨named.1, body⟩
  | .native name, named => by rw [definitionKind]; exact .pure named
  | .forward d, named => by rw [definitionKind]; exact .pure named
  | .typeId d, named => by rw [definitionKind]; exact .pure named
  | .typePrefix d, named => by rw [definitionKind]; exact .pure named
  | .annotationDecl d, named => by rw [definitionKind]; exact .pure named

theorem blind_definitions (scope : SymbolId) : (ds : List Definition) →
    NamedBy (Ident.Avoids place) (allInventory ds) →
    Blind place (definitions scope ds) fun ds => NamedBy (Ident.Avoids place) (allInventory ds)
  | [], named => by
    rw [definitions]
    exact .pure named
  | d :: ds, named => by
    rw [allInventory, namedBy_append] at named
    rw [definitions]
    refine (blind_definition scope d named.1).bind fun _ first =>
      (blind_definitions scope ds named.2).bind fun _ rest => .pure ?_
    rw [allInventory]
    exact namedBy_append.mpr ⟨first, rest⟩

theorem blind_exports (scope : SymbolId) : (es : List (Export Definition)) →
    NamedBy (Ident.Avoids place) (exportInventory es) →
    Blind place (exports scope es) fun es => NamedBy (Ident.Avoids place) (exportInventory es)
  | [], named => by
    rw [exports]
    exact .pure named
  | .definition d :: rest, named => by
    rw [exportInventory, namedBy_append] at named
    rw [exports]
    refine (blind_definition scope d named.1).bind fun _ first =>
      (blind_exports scope rest named.2).bind fun _ rest => .pure ?_
    rw [exportInventory]
    exact namedBy_append.mpr ⟨first, rest⟩
  | .stateMember m :: rest, named => by
    rw [exportInventory, namedBy_append] at named
    rw [exports]
    refine (blind_stateMember scope named.1).bind fun _ first =>
      (blind_exports scope rest named.2).bind fun _ rest => .pure ?_
    rw [exportInventory]
    exact namedBy_append.mpr ⟨first, rest⟩
  | .attribute _ :: rest, named => by
    rw [exportInventory] at named
    rw [exports]
    exact (blind_exports scope rest named).bind fun _ rest => .pure (by rwa [exportInventory])
  | .operation _ :: rest, named => by
    rw [exportInventory] at named
    rw [exports]
    exact (blind_exports scope rest named).bind fun _ rest => .pure (by rwa [exportInventory])
  | .initializer _ :: rest, named => by
    rw [exportInventory] at named
    rw [exports]
    exact (blind_exports scope rest named).bind fun _ rest => .pure (by rwa [exportInventory])
  | .port _ :: rest, named => by
    rw [exportInventory] at named
    rw [exports]
    exact (blind_exports scope rest named).bind fun _ rest => .pure (by rwa [exportInventory])

end

/-! The pass over typedefs. -/

/-- A pass over tables does the same without the place, and puts no type with a definition there
behind a typedef. -/
def PassesBy (place : Nat) (f : SymbolTable → SymbolTable) : Prop :=
  ∀ t, t.AliasesAvoid place →
    f (t.forget place) = (f t).forget place ∧ (f t).AliasesAvoid place

namespace PassesBy

variable {f g : SymbolTable → SymbolTable}

theorem id : PassesBy place fun t => t := fun _ aliases => ⟨rfl, aliases⟩

theorem comp (second : PassesBy place g) (first : PassesBy place f) :
    PassesBy place fun t => g (f t) := by
  intro t aliases
  obtain ⟨same, aliases⟩ := first t aliases
  dsimp only
  rw [same]
  exact second (f t) aliases

theorem foldl {γ : Type} {f : SymbolTable → γ → SymbolTable} {xs : List γ}
    (each : ∀ x ∈ xs, PassesBy place (f · x)) : PassesBy place (xs.foldl f) := by
  induction xs with
  | nil => exact id
  | cons x xs ih =>
    rw [List.forall_mem_cons] at each
    exact (ih each.2).comp each.1

end PassesBy

theorem declarations_namesBound (t : SymbolTable) (scope : SymbolId) : (τ : TypeSpec) →
    (namesBound t scope τ).declarations = τ.declarations
  | .named _ => by rw [namesBound, TypeSpec.declarations, TypeSpec.declarations]
  | .sequence element _ => by
    rw [namesBound, TypeSpec.declarations, TypeSpec.declarations,
      declarations_namesBound t scope element]
  | .set element _ => by
    rw [namesBound, TypeSpec.declarations, TypeSpec.declarations,
      declarations_namesBound t scope element]
  | .map key value _ => by
    rw [namesBound, TypeSpec.declarations, TypeSpec.declarations,
      declarations_namesBound t scope key, declarations_namesBound t scope value]
  | .struct _ => by rw [namesBound]
  | .union _ => by rw [namesBound]
  | .primitive _ => by rw [namesBound]
  | .string _ => by rw [namesBound]
  | .wstring _ => by rw [namesBound]
  | .fixed _ => by rw [namesBound]
  | .enum _ => by rw [namesBound]
  | .bitset _ => by rw [namesBound]
  | .bitmask _ => by rw [namesBound]

theorem passesBy_typedef (scope : SymbolId) {d : Typedef}
    (named : NamedBy (Ident.Avoids place) d.declarations) :
    PassesBy place fun t => d.declarators.foldl (aliasTo (namesBound t scope d.type)) t := by
  obtain ⟨type, names⟩ := namedBy_typedef.mp named
  intro t aliases
  have avoids : (namesBound t scope d.type).Avoids place := by
    rw [TypeSpec.Avoids, declarations_namesBound]
    exact type
  simp only [namesBound_congr t.sameSymbols_forget]
  exact PassesBy.foldl (fun x mem t aliases =>
    ⟨aliasTo_forget _ t (names x mem), aliasesAvoid_aliasTo avoids aliases x⟩) t aliases

/-- The pass over a body does so in the scope that its owner opens. -/
theorem passesBy_body {name : Ident} (avoids : name.Avoids place) {scope : SymbolId}
    {f : SymbolId → SymbolTable → SymbolTable} (inner : ∀ id, PassesBy place (f id)) :
    PassesBy place fun t => f ((t.definedAt? name.span).getD scope) t := by
  intro t aliases
  simp only [t.definedAt?_forget avoids]
  exact inner _ t aliases

mutual

theorem passesBy_aliases (scope : SymbolId) : (d : Definition) →
    NamedBy (Ident.Avoids place) d.inventory → PassesBy place (aliases scope d)
  | ⟨_, kind, _⟩, named => by
    rw [Definition.inventory] at named
    intro t
    rw [aliases, aliases]
    exact passesBy_kindAliases scope kind named t

theorem passesBy_kindAliases (scope : SymbolId) : (kind : DefinitionKind Definition) →
    NamedBy (Ident.Avoids place) (kindInventory kind) → PassesBy place (kindAliases scope kind)
  | .module ⟨name, ds⟩, named => by
    rw [kindInventory, namedBy_cons] at named
    intro t avoid
    rw [kindAliases, kindAliases, t.definedAt?_forget named.1]
    cases t.definedAt? name.span with
    | none => exact ⟨rfl, avoid⟩
    | some id => exact passesBy_allAliases id ds named.2 t avoid
  | .typedef d, named => by
    rw [kindInventory] at named
    intro t
    rw [kindAliases, kindAliases]
    exact passesBy_typedef scope named t
  | .interface ⟨name, _, _, body⟩, named => by
    rw [kindInventory, namedBy_cons] at named
    intro t
    rw [kindAliases, kindAliases]
    exact passesBy_body named.1 (fun id => passesBy_exportAliases id body named.2) t
  | .value ⟨name, _, _, _, _, body⟩, named => by
    rw [kindInventory, namedBy_cons] at named
    intro t
    rw [kindAliases, kindAliases]
    exact passesBy_body named.1 (fun id => passesBy_exportAliases id body named.2) t
  | .event ⟨name, _, _, _, _, body⟩, named => by
    rw [kindInventory, namedBy_cons] at named
    intro t
    rw [kindAliases, kindAliases]
    exact passesBy_body named.1 (fun id => passesBy_exportAliases id body named.2) t
  | .component ⟨name, _, _, body⟩, named => by
    rw [kindInventory, namedBy_cons] at named
    intro t
    rw [kindAliases, kindAliases]
    exact passesBy_body named.1 (fun id => passesBy_exportAliases id body named.2) t
  | .home ⟨name, _, _, _, _, body⟩, named => by
    rw [kindInventory, namedBy_cons] at named
    intro t
    rw [kindAliases, kindAliases]
    exact passesBy_body named.1 (fun id => passesBy_exportAliases id body named.2) t
  | .struct _, _ => by intro t; rw [kindAliases, kindAliases]; exact PassesBy.id t
  | .union _, _ => by intro t; rw [kindAliases, kindAliases]; exact PassesBy.id t
  | .enum _, _ => by intro t; rw [kindAliases, kindAliases]; exact PassesBy.id t
  | .bitset _, _ => by intro t; rw [kindAliases, kindAliases]; exact PassesBy.id t
  | .bitmask _, _ => by intro t; rw [kindAliases, kindAliases]; exact PassesBy.id t
  | .const _, _ => by intro t; rw [kindAliases, kindAliases]; exact PassesBy.id t
  | .exception _, _ => by intro t; rw [kindAliases, kindAliases]; exact PassesBy.id t
  | .native _, _ => by intro t; rw [kindAliases, kindAliases]; exact PassesBy.id t
  | .forward _, _ => by intro t; rw [kindAliases, kindAliases]; exact PassesBy.id t
  | .valueBox _, _ => by intro t; rw [kindAliases, kindAliases]; exact PassesBy.id t
  | .typeId _, _ => by intro t; rw [kindAliases, kindAliases]; exact PassesBy.id t
  | .typePrefix _, _ => by intro t; rw [kindAliases, kindAliases]; exact PassesBy.id t
  | .annotationDecl _, _ => by intro t; rw [kindAliases, kindAliases]; exact PassesBy.id t

theorem passesBy_allAliases (scope : SymbolId) : (ds : List Definition) →
    NamedBy (Ident.Avoids place) (allInventory ds) → PassesBy place (allAliases scope ds)
  | [], _ => by intro t; rw [allAliases, allAliases]; exact PassesBy.id t
  | d :: ds, named => by
    rw [allInventory, namedBy_append] at named
    intro t
    rw [allAliases, allAliases]
    exact (passesBy_allAliases scope ds named.2).comp (passesBy_aliases scope d named.1) t

theorem passesBy_exportAliases (scope : SymbolId) : (es : List (Export Definition)) →
    NamedBy (Ident.Avoids place) (exportInventory es) → PassesBy place (exportAliases scope es)
  | [], _ => by intro t; rw [exportAliases, exportAliases]; exact PassesBy.id t
  | .definition d :: rest, named => by
    rw [exportInventory, namedBy_append] at named
    intro t
    rw [exportAliases, exportAliases]
    exact (passesBy_exportAliases scope rest named.2).comp (passesBy_aliases scope d named.1) t
  | .stateMember m :: rest, named => by
    rw [exportInventory, namedBy_append] at named
    intro t
    rw [exportAliases, exportAliases]
    exact passesBy_exportAliases scope rest named.2 t
  | .attribute _ :: rest, named => by
    rw [exportInventory] at named
    intro t
    rw [exportAliases, exportAliases]
    exact passesBy_exportAliases scope rest named t
  | .operation _ :: rest, named => by
    rw [exportInventory] at named
    intro t
    rw [exportAliases, exportAliases]
    exact passesBy_exportAliases scope rest named t
  | .initializer _ :: rest, named => by
    rw [exportInventory] at named
    intro t
    rw [exportAliases, exportAliases]
    exact passesBy_exportAliases scope rest named t
  | .port _ :: rest, named => by
    rw [exportInventory] at named
    intro t
    rw [exportAliases, exportAliases]
    exact passesBy_exportAliases scope rest named t

end

end Binding

/-- Nothing is defined at the place. -/
def Bound.forget (place : Nat) (b : Bound) : Bound := { b with table := b.table.forget place }

/-- A unit without an identifier at the place is bound the same without it. -/
theorem bindUnit_forget {place : Nat} {s : Specification}
    (named : NamedBy (Ident.Avoids place) (allInventory s.definitions)) {t : SymbolTable}
    (aliases : t.AliasesAvoid place) :
    bindUnit s (t.forget place) = (bindUnit s t).forget place ∧
      (bindUnit s t).table.AliasesAvoid place ∧
      NamedBy (Ident.Avoids place) (allInventory (bindUnit s t).specification.definitions) := by
  obtain ⟨ahead, aliases⟩ := Binding.passesBy_allAliases SymbolTable.rootId _ named t aliases
  have walk := Binding.blind_definitions SymbolTable.rootId s.definitions named
    ⟨Binding.allAliases SymbolTable.rootId s.definitions t, []⟩ aliases
  obtain ⟨same, aliases, named⟩ := walk
  refine ⟨?_, aliases, named⟩
  rw [Binding.forget] at same
  rw [bindUnit, ahead]
  simp only [same]
  rfl

end Idl
