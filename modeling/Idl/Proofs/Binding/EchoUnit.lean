import Idl.Binding.Unit
import Idl.Proofs.Binding.Alias
import Idl.Proofs.Binding.EchoType

/-!
Binding definitions a second time changes nothing: typedefs are settled on the way, and constants
get the slots they had. Main statement: `echo_definitions`.
-/

set_option autoImplicit false

namespace Idl.Binding

variable {t : SymbolTable}

/-! What binding keeps of definitions. -/

/-- The typedefs are of one symbol, and their types of one head. -/
structure SameTypedef (t : SymbolTable) (p q : PlacedTypedef) : Prop where
  place : q.id? t = p.id? t
  outline : (q.meaning t).outline = (p.meaning t).outline

structure KeptKind (kind kind' : DefinitionKind Definition) : Prop where
  scopes : ∀ scope b, ScopeBuilder.definitionKind scope kind' b =
    ScopeBuilder.definitionKind scope kind b
  typedefs : ∀ t scope, List.Forall₂ (SameTypedef t) (kindTypedefs t scope kind)
    (kindTypedefs t scope kind')

structure KeptDefinition (d e : Definition) : Prop where
  scopes : ∀ scope b, ScopeBuilder.definition scope e b = ScopeBuilder.definition scope d b
  typedefs : ∀ t scope, List.Forall₂ (SameTypedef t) (d.typedefs t scope) (e.typedefs t scope)

structure KeptAll (ds es : List Definition) : Prop where
  scopes : ∀ scope b, ScopeBuilder.definitions scope es b = ScopeBuilder.definitions scope ds b
  typedefs : ∀ t scope, List.Forall₂ (SameTypedef t) (allTypedefs t scope ds)
    (allTypedefs t scope es)

structure KeptExports (body body' : List (Export Definition)) : Prop where
  scopes : ∀ scope b, ScopeBuilder.exports scope body' b = ScopeBuilder.exports scope body b
  typedefs : ∀ t scope, List.Forall₂ (SameTypedef t) (exportTypedefs t scope body)
    (exportTypedefs t scope body')

/-- The symbols of typedefs. -/
def typedefIds (t : SymbolTable) (ps : List PlacedTypedef) : List SymbolId :=
  ps.filterMap (·.id? t)

theorem typedefIds_append (ps qs : List PlacedTypedef) :
    typedefIds t (ps ++ qs) = typedefIds t ps ++ typedefIds t qs := List.filterMap_append

/-! Typedefs. -/

theorem sameFrame_aliasTo (type : TypeSpec) (u : SymbolTable) (d : Declarator) :
    SameFrame u (aliasTo type u d) := by
  rw [aliasTo]
  split
  · exact SameFrame.setAlias u _ _
  · exact SameFrame.refl u

/-- Both tables let the typedef name one type. -/
theorem Alike.aliasTo {u v : SymbolTable} {d e : Declarator} {rest : List SymbolId}
    (kept : KeptDeclarator d e) (same : SameFrame t u) (type : TypeSpec)
    (alike : Alike ((t.definedAt? d.name.span).toList ++ rest) u v) :
    Alike rest (Binding.aliasTo type u e) (Binding.aliasTo type v e) := by
  have place : u.definedAt? e.name.span = t.definedAt? d.name.span := by
    rw [same.definedAt?, kept.name]
  have place' : v.definedAt? e.name.span = t.definedAt? d.name.span := by
    rw [alike.outline.frame.definedAt?, place]
  rw [Binding.aliasTo, Binding.aliasTo, place, place']
  cases id : t.definedAt? d.name.span with
  | none =>
    rw [id] at alike
    exact alike
  | some id' =>
    rw [id] at alike
    exact alike.setAlias _

theorem run_typedefDeclarator (scope : SymbolId) (type : TypeSpec) (d e : Declarator)
    {b b' : Binding} (run : (declarator scope d).run b = (e, b')) :
    (typedefDeclarator scope type d).run b = (e, ⟨aliasTo type b'.table e, b'.errors⟩) := by
  rw [typedefDeclarator, run_bind run]
  rfl

theorem echo_typedefDeclarator (scope : SymbolId) (type : TypeSpec) (d : Declarator) :
    Echo t (t.definedAt? d.name.span).toList (typedefDeclarator scope type) d
      (KeptDeclarator d) := by
  intro b same
  obtain ⟨e, es, u, run, kept, frame, again⟩ := echo_declarator scope d b same
  refine ⟨e, es, aliasTo type u e, run_typedefDeclarator scope type d e run, kept,
    frame.trans (sameFrame_aliasTo type u e), fun b' rest alike => ?_⟩
  obtain ⟨u', run', alike'⟩ := again b' _ alike
  exact ⟨_, run_typedefDeclarator scope type e e run', alike'.aliasTo kept frame type⟩

theorem foldl_declarators {ds es : List Declarator} (kept : List.Forall₂ KeptDeclarator ds es)
    (scope : SymbolId) (b : ScopeBuilder) :
    es.foldl (fun b d => (b.declare scope d.name .typedef).2) b =
      ds.foldl (fun b d => (b.declare scope d.name .typedef).2) b := by
  induction kept generalizing b with
  | nil => rfl
  | cons first _ ih => rw [List.foldl_cons, List.foldl_cons, first.name, ih]

theorem echo_typedef (scope : SymbolId) (d : Typedef) (formed : d.Formed) :
    Echo t (typedefIds t (kindTypedefs t scope (.typedef d))) (typedef scope) d
      fun e => KeptKind (.typedef d) (.typedef e) := by
  obtain ⟨type, declarators⟩ := d
  have visited : typedefIds t (kindTypedefs t scope (.typedef ⟨type, declarators⟩)) =
      declarators.flatMap fun d => (t.definedAt? d.name.span).toList := by
    rw [typedefIds, kindTypedefs, List.filterMap_map, List.filterMap_eq_flatMap_toList]
    rfl
  rw [visited]
  refine (echo_typeSpec t scope type formed.type).pair
    (fun type' _ => Echo.list declarators fun d _ => echo_typedefDeclarator scope type' d)
    (m := Typedef.mk) (fun _ _ => rfl) fun type' declarators' kept each => ?_
  refine ⟨fun scope b => ?_, fun t scope => ?_⟩
  · simp only [ScopeBuilder.definitionKind, ScopeBuilder.typedef, kept.scopes,
      foldl_declarators each]
  · rw [kindTypedefs, kindTypedefs, List.forall₂_map_left_iff, List.forall₂_map_right_iff]
    exact each.imp fun d e same => ⟨by rw [PlacedTypedef.id?, same.name, PlacedTypedef.id?], by
      simp only [PlacedTypedef.meaning, Alias.outline, kept.head, same.dims]⟩

/-! Constants. -/

/-- The expression of a constant with its value, its slot, and what is reported without one. -/
def constOutcome (scope : SymbolId) (type : TypeSpec) (name : Ident) (u : SymbolTable)
    (e : ConstExpr) : (ConstExpr × ConstSlot) × List BindingError :=
  match u.constType? type with
  | none => ((e, .failed), [⟨.badConstType type.text name.name, name.span⟩])
  | some constType =>
    match evaluate u scope constType e with
    | .ok constant => ((e.withValue (some constant), .value constant), [])
    | .error error => ((e, .failed), faultErrors error)

theorem run_constValue (scope : SymbolId) (type : TypeSpec) (name : Ident) (e : ConstExpr)
    (b : Binding) : (constValue scope type name e).run b =
      ((constOutcome scope type name b.table e).1,
        ⟨b.table, b.errors ++ (constOutcome scope type name b.table e).2⟩) := by
  have looked : (table? (·.constType? type)).run b = (b.table.constType? type, b) := rfl
  rw [constValue, run_bind looked, constOutcome]
  cases b.table.constType? type with
  | none => rfl
  | some constType =>
    dsimp only
    rw [run_bind (run_evaluated scope constType e b), exprOutcome]
    cases evaluate b.table scope constType e with
    | ok constant =>
      simp only [ConstExpr.value_withValue]
      rfl
    | error error =>
      cases e.value <;> rfl

theorem constOutcome_congr {u v : SymbolTable} {rest : List SymbolId} (alike : Alike rest u v)
    (scope : SymbolId) (type : TypeSpec) (name : Ident) (e : ConstExpr) :
    constOutcome scope type name v e = constOutcome scope type name u e := by
  simp only [constOutcome, evaluate_congr alike.same,
    SymbolTable.constType?_congr alike.outline (rfl : type.head = type.head)]

theorem constOutcome_again (scope : SymbolId) (type : TypeSpec) (name : Ident) (u : SymbolTable)
    (e : ConstExpr) : constOutcome scope type name u (constOutcome scope type name u e).1.1 =
      constOutcome scope type name u e := by
  cases constType : u.constType? type with
  | none => simp only [constOutcome, constType]
  | some constType' =>
    cases value : evaluate u scope constType' e with
    | error error => simp only [constOutcome, constType, value]
    | ok constant =>
      have twice : (e.withValue (some constant)).withValue (some constant) =
          e.withValue (some constant) := by cases e <;> rfl
      simp only [constOutcome, constType, value, evaluate_withValue, twice]

/-- Gives a constant its value and settles its symbol. -/
def settleConst (scope : SymbolId) (type : TypeSpec) (name : Ident) (e : ConstExpr) :
    BindM ConstExpr := do
  let (value, slot) ← constValue scope type name e
  match ← defined? name with
  | some id => modify fun b => { b with table := b.table.setConstant id slot }
  | none => pure ()
  return value

/-- The table once the constant of a name is settled. -/
def settled (u : SymbolTable) (name : Ident) (slot : ConstSlot) : SymbolTable :=
  match u.definedAt? name.span with
  | some id => u.setConstant id slot
  | none => u

theorem sameFrame_settled (u : SymbolTable) (name : Ident) (slot : ConstSlot) :
    SameFrame u (settled u name slot) := by
  rw [settled]
  split
  · exact SameFrame.setConstant u _ slot
  · exact SameFrame.refl u

theorem Alike.settled {u v : SymbolTable} {rest : List SymbolId} (alike : Alike rest u v)
    (name : Ident) (slot : ConstSlot) :
    Alike rest (Binding.settled u name slot) (Binding.settled v name slot) := by
  rw [Binding.settled, Binding.settled, alike.outline.frame.definedAt?]
  split
  · exact alike.setConstant _ slot
  · exact alike

theorem run_settleConst (scope : SymbolId) (type : TypeSpec) (name : Ident) (e : ConstExpr)
    (b : Binding) : (settleConst scope type name e).run b =
      ((constOutcome scope type name b.table e).1.1,
        ⟨settled b.table name (constOutcome scope type name b.table e).1.2,
          b.errors ++ (constOutcome scope type name b.table e).2⟩) := by
  rw [settleConst, run_bind (run_constValue scope type name e b)]
  generalize constOutcome scope type name b.table e = outcome
  obtain ⟨⟨value, slot⟩, es⟩ := outcome
  change StateT.run (do
    match b.table.definedAt? name.span with
    | some id => modify fun b => { b with table := b.table.setConstant id slot }
    | none => (Pure.pure () : BindM Unit)
    return value) _ = _
  rw [settled]
  cases b.table.definedAt? name.span <;> rfl

/-- A constant is settled once its type is bound. -/
theorem constDecl_eq_settleConst (scope : SymbolId) (type : TypeSpec) (name : Ident)
    (value : ConstExpr) : constDecl scope ⟨type, name, value⟩ = (do
      let type ← typeSpec scope type
      let value ← settleConst scope type name value
      return ⟨type, name, value⟩) := by
  simp only [constDecl, settleConst, bind_assoc]
  refine bind_congr fun type => bind_congr fun valued => bind_congr fun id => ?_
  cases id <;> rfl

theorem echo_settleConst (scope : SymbolId) (type : TypeSpec) (name : Ident) (e : ConstExpr) :
    Echo t [] (settleConst scope type name) e fun _ => True := by
  intro b same
  refine ⟨_, _, _, run_settleConst scope type name e b, trivial,
    same.trans (sameFrame_settled _ name _), fun b' rest alike => ?_⟩
  refine ⟨_, ?_, Alike.settled alike name _⟩
  rw [run_settleConst, constOutcome_congr alike, constOutcome_again]

/-- A definition that has no typedef in it. -/
theorem KeptKind.plain {kind kind' : DefinitionKind Definition}
    (scopes : ∀ scope b, ScopeBuilder.definitionKind scope kind' b =
      ScopeBuilder.definitionKind scope kind b)
    (none : ∀ t scope, kindTypedefs t scope kind = [])
    (none' : ∀ t scope, kindTypedefs t scope kind' = []) : KeptKind kind kind' :=
  ⟨scopes, fun t scope => by rw [none, none']; exact .nil⟩

theorem echo_constDecl (scope : SymbolId) (d : ConstDecl) (formed : d.Formed) :
    Echo t [] (constDecl scope) d fun e => KeptKind (.const d) (.const e) := by
  obtain ⟨type, name, value⟩ := d
  refine (echo_typeSpec t scope type formed.type).pair
    (fun type' _ => echo_settleConst scope type' name value)
    (m := fun type value => (⟨type, name, value⟩ : ConstDecl))
    (fun type value => constDecl_eq_settleConst scope type name value)
    fun _ _ _ _ => .plain (fun _ _ => ?_) (fun _ _ => ?_) fun _ _ => ?_
  · rw [ScopeBuilder.definitionKind, ScopeBuilder.definitionKind]
  · rw [kindTypedefs]
  · rw [kindTypedefs]

/-! Definitions. -/

theorem echo_stateMember (scope : SymbolId) (m : StateMember) (formed : m.member.Formed) :
    Echo t [] (stateMember scope) m fun n => Kept m.member.type n.member.type := by
  obtain ⟨isPublic, ⟨as, type, ds, span⟩⟩ := m
  refine (echo_annotations scope as).pair
    (fun _ _ => (echo_typeSpec t scope type formed.type).both
      fun _ _ => echo_each ds fun d _ => echo_declarator scope d)
    (m := fun as x => (⟨isPublic, ⟨as, x.1, x.2, span⟩⟩ : StateMember)) ?_ ?_
  · intro as x
    simp [stateMember, members]
  · intro _ _ _ kept
    exact kept.1

/-- An export that declares nothing. -/
theorem KeptExports.skip {body body' : List (Export Definition)} (kept : KeptExports body body')
    {e : Export Definition}
    (scopes : ∀ scope rest b, ScopeBuilder.exports scope (e :: rest) b =
      ScopeBuilder.exports scope rest b)
    (typedefs : ∀ t scope rest, exportTypedefs t scope (e :: rest) = exportTypedefs t scope rest) :
    KeptExports (e :: body) (e :: body') where
  scopes scope b := by rw [scopes, scopes, kept.scopes]
  typedefs t scope := by
    rw [typedefs, typedefs]
    exact kept.typedefs t scope

theorem KeptAll.refl (ds : List Definition) : KeptAll ds ds :=
  ⟨fun _ _ => rfl, fun _ _ => List.forall₂_same.mpr fun _ _ => ⟨rfl, rfl⟩⟩

theorem KeptAll.module {name : Ident} {ds es : List Definition} (kept : KeptAll ds es) :
    KeptKind (.module ⟨name, ds⟩) (.module ⟨name, es⟩) where
  scopes scope b := by simp only [ScopeBuilder.definitionKind, kept.scopes]
  typedefs t scope := by
    rw [kindTypedefs, kindTypedefs]
    cases t.definedAt? name.span with
    | some id => exact kept.typedefs t id
    | none => exact .nil

/-- Binds the definitions of a module, which are left as they are if its name defines nothing. -/
def inModule (name : Ident) (ds : List Definition) : BindM (List Definition) := do
  match ← defined? name with
  | some id => definitions id ds
  | none => return ds

theorem run_inModule (name : Ident) (ds : List Definition) (b : Binding) :
    (inModule name ds).run b = (match b.table.definedAt? name.span with
      | some id => definitions id ds
      | none => return ds).run b := rfl

theorem echo_module {name : Ident} {ds : List Definition}
    (inner : ∀ id, Echo t (typedefIds t (allTypedefs t id ds)) (definitions id) ds (KeptAll ds))
    (scope : SymbolId) :
    Echo t (typedefIds t (kindTypedefs t scope (.module ⟨name, ds⟩))) (definitionKind scope)
      (.module ⟨name, ds⟩) (KeptKind (.module ⟨name, ds⟩)) := by
  have entered : Echo t (typedefIds t (kindTypedefs t scope (.module ⟨name, ds⟩)))
      (inModule name) ds (KeptAll ds) := by
    rw [kindTypedefs]
    cases place : t.definedAt? name.span with
    | none =>
      refine (Echo.pure (f := Pure.pure) rfl (KeptAll.refl ds)).inFrame fun ds b same => ?_
      rw [run_inModule, same.definedAt?, place]
    | some id =>
      refine (inner id).inFrame fun ds b same => ?_
      rw [run_inModule, same.definedAt?, place]
  refine entered.map (m := fun ds => DefinitionKind.module ⟨name, ds⟩) (fun ds => ?_)
    fun _ kept => kept.module
  rw [definitionKind, inModule, bind_assoc]
  refine bind_congr fun id => ?_
  cases id <;> rfl

/-- A definition with a body of exports. -/
theorem echo_body {scope : SymbolId} {name : Ident} {body : List (Export Definition)}
    {m : List (Export Definition) → DefinitionKind Definition}
    (inner : Echo t (typedefIds t (exportTypedefs t ((t.definedAt? name.span).getD scope) body))
      (exports ((t.definedAt? name.span).getD scope)) body (KeptExports body))
    (unfold : ∀ body, definitionKind scope (m body) = (do
      let id ← scopeOf name scope
      return m (← exports id body)))
    (typedefs : ∀ t scope body, kindTypedefs t scope (m body) =
      exportTypedefs t ((t.definedAt? name.span).getD scope) body)
    (scopes : ∀ body', KeptExports body body' → ∀ scope b,
      ScopeBuilder.definitionKind scope (m body') b =
        ScopeBuilder.definitionKind scope (m body) b) :
    Echo t (typedefIds t (kindTypedefs t scope (m body))) (definitionKind scope) (m body)
      (KeptKind (m body)) := by
  rw [typedefs]
  refine (Echo.inScope (G := exports) name scope inner fun _ => rfl).map (m := m)
    (fun body => ?_) fun body' kept => ⟨scopes body' kept, fun t scope => ?_⟩
  · rw [unfold]
    simp
  · rw [typedefs, typedefs]
    exact kept.typedefs t _

mutual

theorem echo_definition (t : SymbolTable) (scope : SymbolId) : (d : Definition) → d.Formed →
    Echo t (typedefIds t (d.typedefs t scope)) (definition scope) d (KeptDefinition d)
  | ⟨as, kind, span⟩, formed => by
    rw [Definition.Formed] at formed
    rw [Definition.typedefs]
    refine (echo_annotations scope as).pair
      (fun _ _ => echo_definitionKind t scope kind formed.2)
      (m := fun as kind => (⟨as, kind, span⟩ : Definition)) (fun _ _ => by rw [definition])
      fun _ _ _ kept => ⟨fun scope b => ?_, fun t scope => ?_⟩
    · rw [ScopeBuilder.definition, ScopeBuilder.definition, kept.scopes]
    · rw [Definition.typedefs, Definition.typedefs]
      exact kept.typedefs t scope

theorem echo_definitionKind (t : SymbolTable) (scope : SymbolId) :
    (kind : DefinitionKind Definition) → kindFormed kind →
    Echo t (typedefIds t (kindTypedefs t scope kind)) (definitionKind scope) kind (KeptKind kind)
  | .module ⟨name, ds⟩, formed => by
    rw [kindFormed] at formed
    exact echo_module (fun id => echo_definitions t id ds formed.2) scope
  | .struct s, formed => by
    rw [kindTypedefs]
    exact (echo_structType t scope s formed).map (m := DefinitionKind.struct)
      (fun _ => by rw [definitionKind]) fun _ scopes =>
        .plain scopes (fun _ _ => by rw [kindTypedefs]) fun _ _ => by rw [kindTypedefs]
  | .union u, formed => by
    rw [kindTypedefs]
    exact (echo_unionType t scope u formed).map (m := DefinitionKind.union)
      (fun _ => by rw [definitionKind]) fun _ scopes =>
        .plain scopes (fun _ _ => by rw [kindTypedefs]) fun _ _ => by rw [kindTypedefs]
  | .enum e, formed => by
    rw [kindTypedefs]
    refine (echo_enumType scope e).map (m := DefinitionKind.enum)
      (fun _ => by rw [definitionKind]) fun _ kept =>
        .plain (fun scope b => ?_) (fun _ _ => by rw [kindTypedefs]) fun _ _ => by rw [kindTypedefs]
    simp only [ScopeBuilder.definitionKind, kept.scopes]
  | .bitset s, formed => by
    rw [kindFormed] at formed
    rw [kindTypedefs]
    refine (echo_bitsetType scope s formed).map (m := DefinitionKind.bitset)
      (fun _ => by rw [definitionKind]) fun _ name =>
        .plain (fun scope b => ?_) (fun _ _ => by rw [kindTypedefs]) fun _ _ => by rw [kindTypedefs]
    simp only [ScopeBuilder.definitionKind, name]
  | .bitmask s, formed => by
    rw [kindTypedefs]
    refine (echo_bitmaskType scope s).map (m := DefinitionKind.bitmask)
      (fun _ => by rw [definitionKind]) fun _ kept =>
        .plain (fun scope b => ?_) (fun _ _ => by rw [kindTypedefs]) fun _ _ => by rw [kindTypedefs]
    simp only [ScopeBuilder.definitionKind, kept.scopes]
  | .typedef d, formed => by
    rw [kindFormed] at formed
    exact (echo_typedef scope d formed).map (m := DefinitionKind.typedef)
      (fun _ => by rw [definitionKind]) fun _ kept => kept
  | .const d, formed => by
    rw [kindFormed] at formed
    rw [kindTypedefs]
    exact (echo_constDecl scope d formed).map (m := DefinitionKind.const)
      (fun _ => by rw [definitionKind]) fun _ kept => kept
  | .exception ⟨name, ms⟩, formed => by
    rw [kindFormed] at formed
    rw [kindTypedefs]
    refine (Echo.inScope (G := members) name scope
      (echo_members t _ ms ((membersFormed_iff ms).mpr formed.members)) fun _ => rfl).map
      (m := fun ms => DefinitionKind.exception ⟨name, ms⟩) (fun _ => ?_) fun _ kept =>
        .plain (fun scope b => ?_) (fun _ _ => by rw [kindTypedefs]) fun _ _ => by rw [kindTypedefs]
    · simp [definitionKind]
    · simp only [ScopeBuilder.definitionKind, kept _ _]
  | .interface ⟨name, q, bases, body⟩, formed => by
    rw [kindFormed] at formed
    exact echo_body (m := fun body => .interface ⟨name, q, bases, body⟩)
      (echo_exports t _ body formed.2.2.2)
      (fun _ => by rw [definitionKind]) (fun _ _ _ => by rw [kindTypedefs])
      fun _ kept _ _ => by simp only [ScopeBuilder.definitionKind, kept.scopes]
  | .value ⟨name, q, truncatable, bases, supports, body⟩, formed => by
    rw [kindFormed] at formed
    exact echo_body (m := fun body => .value ⟨name, q, truncatable, bases, supports, body⟩)
      (echo_exports t _ body formed.2)
      (fun _ => by rw [definitionKind]) (fun _ _ _ => by rw [kindTypedefs])
      fun _ kept _ _ => by simp only [ScopeBuilder.definitionKind, kept.scopes]
  | .event ⟨name, q, truncatable, bases, supports, body⟩, formed => by
    rw [kindFormed] at formed
    exact echo_body (m := fun body => .event ⟨name, q, truncatable, bases, supports, body⟩)
      (echo_exports t _ body formed.2)
      (fun _ => by rw [definitionKind]) (fun _ _ _ => by rw [kindTypedefs])
      fun _ kept _ _ => by simp only [ScopeBuilder.definitionKind, kept.scopes]
  | .valueBox ⟨name, type⟩, formed => by
    rw [kindFormed] at formed
    rw [kindTypedefs]
    refine (echo_typeSpec t scope type formed.type).map
      (m := fun type => DefinitionKind.valueBox ⟨name, type⟩) (fun _ => by rw [definitionKind])
      fun _ _ => .plain (fun scope b => ?_) (fun _ _ => by rw [kindTypedefs])
        fun _ _ => by rw [kindTypedefs]
    rw [ScopeBuilder.definitionKind, ScopeBuilder.definitionKind]
  | .component ⟨name, base, supports, body⟩, formed => by
    rw [kindFormed] at formed
    exact echo_body (m := fun body => .component ⟨name, base, supports, body⟩)
      (echo_exports t _ body formed.2)
      (fun _ => by rw [definitionKind]) (fun _ _ _ => by rw [kindTypedefs])
      fun _ kept _ _ => by simp only [ScopeBuilder.definitionKind, kept.scopes]
  | .home ⟨name, base, supports, manages, key, body⟩, formed => by
    rw [kindFormed] at formed
    exact echo_body (m := fun body => .home ⟨name, base, supports, manages, key, body⟩)
      (echo_exports t _ body formed.2)
      (fun _ => by rw [definitionKind]) (fun _ _ _ => by rw [kindTypedefs])
      fun _ kept _ _ => by simp only [ScopeBuilder.definitionKind, kept.scopes]
  | .native name, _ => by
    rw [kindTypedefs]
    exact Echo.pure (by rw [definitionKind]) (.plain (fun _ _ => rfl)
      (fun _ _ => by rw [kindTypedefs]) fun _ _ => by rw [kindTypedefs])
  | .forward d, _ => by
    rw [kindTypedefs]
    exact Echo.pure (by rw [definitionKind]) (.plain (fun _ _ => rfl)
      (fun _ _ => by rw [kindTypedefs]) fun _ _ => by rw [kindTypedefs])
  | .typeId d, _ => by
    rw [kindTypedefs]
    exact Echo.pure (by rw [definitionKind]) (.plain (fun _ _ => rfl)
      (fun _ _ => by rw [kindTypedefs]) fun _ _ => by rw [kindTypedefs])
  | .typePrefix d, _ => by
    rw [kindTypedefs]
    exact Echo.pure (by rw [definitionKind]) (.plain (fun _ _ => rfl)
      (fun _ _ => by rw [kindTypedefs]) fun _ _ => by rw [kindTypedefs])
  | .annotationDecl d, _ => by
    rw [kindTypedefs]
    exact Echo.pure (by rw [definitionKind]) (.plain (fun _ _ => rfl)
      (fun _ _ => by rw [kindTypedefs]) fun _ _ => by rw [kindTypedefs])

theorem echo_definitions (t : SymbolTable) (scope : SymbolId) : (ds : List Definition) →
    allFormed ds →
    Echo t (typedefIds t (allTypedefs t scope ds)) (definitions scope) ds (KeptAll ds)
  | [], _ => by
    rw [allTypedefs]
    exact Echo.pure (by rw [definitions]) ⟨fun _ _ => rfl, fun _ _ => by
      rw [allTypedefs]; exact .nil⟩
  | d :: ds, formed => by
    rw [allFormed] at formed
    rw [allTypedefs, typedefIds_append]
    refine (echo_definition t scope d formed.1).pair
      (fun _ _ => echo_definitions t scope ds formed.2) (m := List.cons)
      (fun _ _ => by rw [definitions]) fun _ _ first rest => ⟨fun scope b => ?_, fun t scope => ?_⟩
    · rw [ScopeBuilder.definitions, ScopeBuilder.definitions, first.scopes, rest.scopes]
    · rw [allTypedefs, allTypedefs]
      exact List.rel_append (first.typedefs t scope) (rest.typedefs t scope)

theorem echo_exports (t : SymbolTable) (scope : SymbolId) : (body : List (Export Definition)) →
    exportsFormed body →
    Echo t (typedefIds t (exportTypedefs t scope body)) (exports scope) body (KeptExports body)
  | [], _ => by
    rw [exportTypedefs]
    exact Echo.pure (by rw [exports]) ⟨fun _ _ => rfl, fun _ _ => by
      rw [exportTypedefs]; exact .nil⟩
  | .definition d :: rest, formed => by
    rw [exportsFormed] at formed
    rw [exportTypedefs, typedefIds_append]
    refine (echo_definition t scope d formed.1.1).pair
      (fun _ _ => echo_exports t scope rest formed.2) (m := fun d rest => .definition d :: rest)
      ?_ ?_
    · intro _ _
      rw [exports]
    intro _ _ first kept
    refine ⟨fun scope b => ?_, fun t scope => ?_⟩
    · rw [ScopeBuilder.exports, ScopeBuilder.exports, first.scopes, kept.scopes]
    · rw [exportTypedefs, exportTypedefs]
      exact List.rel_append (first.typedefs t scope) (kept.typedefs t scope)
  | .stateMember m :: rest, formed => by
    rw [exportsFormed] at formed
    rw [exportTypedefs]
    refine (echo_stateMember scope m formed.1).pair
      (fun _ _ => echo_exports t scope rest formed.2) (m := fun m rest => .stateMember m :: rest)
      ?_ ?_
    · intro _ _
      rw [exports]
    intro _ _ first kept
    refine ⟨fun scope b => ?_, fun t scope => ?_⟩
    · rw [ScopeBuilder.exports, ScopeBuilder.exports, first.scopes, kept.scopes]
    · rw [exportTypedefs, exportTypedefs]
      exact kept.typedefs t scope
  | .attribute a :: rest, formed => by
    rw [exportsFormed] at formed
    rw [exportTypedefs]
    refine (echo_exports t scope rest formed.2).map (m := fun rest => .attribute a :: rest) ?_
      fun _ kept => kept.skip (fun _ _ _ => by rw [ScopeBuilder.exports])
        fun _ _ _ => by rw [exportTypedefs]
    intro _
    rw [exports]
  | .operation o :: rest, formed => by
    rw [exportsFormed] at formed
    rw [exportTypedefs]
    refine (echo_exports t scope rest formed.2).map (m := fun rest => .operation o :: rest) ?_
      fun _ kept => kept.skip (fun _ _ _ => by rw [ScopeBuilder.exports])
        fun _ _ _ => by rw [exportTypedefs]
    intro _
    rw [exports]
  | .initializer i :: rest, formed => by
    rw [exportsFormed] at formed
    rw [exportTypedefs]
    refine (echo_exports t scope rest formed.2).map (m := fun rest => .initializer i :: rest) ?_
      fun _ kept => kept.skip (fun _ _ _ => by rw [ScopeBuilder.exports])
        fun _ _ _ => by rw [exportTypedefs]
    intro _
    rw [exports]
  | .port p :: rest, formed => by
    rw [exportsFormed] at formed
    rw [exportTypedefs]
    refine (echo_exports t scope rest formed.2).map (m := fun rest => .port p :: rest) ?_
      fun _ kept => kept.skip (fun _ _ _ => by rw [ScopeBuilder.exports])
        fun _ _ _ => by rw [exportTypedefs]
    intro _
    rw [exports]

end

end Idl.Binding
