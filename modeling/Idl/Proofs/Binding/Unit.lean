import Idl.Binding.Unit
import Idl.Proofs.Binding.Alias
import Idl.Proofs.Binding.Type

/-!
A unit after binding. Main statement: `bound_of_bindUnit`.
-/

set_option autoImplicit false

namespace Idl

open Binding

/-- Typedefs and modules of a tree are where the table `t₀` has them, and each typedef has an
outline in `t` that goes with its type. -/
structure Placed (t₀ t : SymbolTable) (ds : List Declaration) (ps : List PlacedTypedef) : Prop where
  frame : SameFrame t₀ t
  modules : ∀ name, ⟨name, .module⟩ ∈ ds → ∃ id, t₀.definedAt? name.span = some id
  aliases : ∀ p ∈ ps, ∀ id, p.id? t₀ = some id → (t.symbol id).aliased = some (p.meaning t₀)

theorem Placed.mono {t₀ t : SymbolTable} {ds es : List Declaration} {ps qs : List PlacedTypedef}
    (placed : Placed t₀ t ds ps) (declared : es ⊆ ds) (typedefs : qs ⊆ ps) : Placed t₀ t es qs :=
  ⟨placed.frame, fun name mem => placed.modules name (declared mem),
    fun p mem => placed.aliases p (typedefs mem)⟩

namespace Binding

variable {t₀ t : SymbolTable}

/-- A typedef may get a type of the outline that it has. -/
theorem steady_aliasTo {u : SymbolTable} (steady : Steady t u) (type : TypeSpec) (d : Declarator)
    (outline : ∀ id, t.definedAt? d.name.span = some id →
      (t.symbol id).aliased.map Alias.outline = some (type.head, !d.dims.isEmpty)) :
    Steady t (aliasTo type u d) := by
  rw [aliasTo, steady.outline.frame.definedAt?]
  cases place : t.definedAt? d.name.span with
  | none => exact steady
  | some id =>
    show Steady t (u.setAlias id ⟨type, !d.dims.isEmpty⟩)
    have symbols (i : SymbolId) := SymbolTable.symbol_modify u id i
      fun s => { s with aliased := some ⟨type, !d.dims.isEmpty⟩ }
    refine ⟨⟨steady.outline.frame.trans (SameFrame.setAlias u id _), fun i => ?_⟩, fun i => ?_⟩
    · rw [SymbolTable.setAlias, symbols]
      split
      · next same =>
        rw [same.1, outline id place]
        rfl
      · exact steady.outline.aliases i
    · rw [SymbolTable.setAlias,
        u.modify_aspect Symbol.constant id i
          (fun s => { s with aliased := some ⟨type, !d.dims.isEmpty⟩ }) fun _ => rfl]
      exact steady.unfailed i

theorem grows_typedefDeclarator (scope : SymbolId) (type : TypeSpec) (d : Declarator) :
    Grows (typedefDeclarator scope type d) :=
  (binds_declarator (t := .empty) scope d).grows.bind fun d =>
    (Grows.changeTable (aliasTo type · d)).bind fun _ => Grows.pure d

theorem binds_typedefDeclarator (scope : SymbolId) (type : TypeSpec) (d : Declarator)
    (outline : ∀ id, t.definedAt? d.name.span = some id →
      (t.symbol id).aliased.map Alias.outline = some (type.head, !d.dims.isEmpty)) :
    Binds t (typedefDeclarator scope type d) fun d' => d'.name = d.name ∧
      (∀ e ∈ d'.dims, Sized e) ∧ ∀ id, t.definedAt? d'.name.span = some id →
        (t.symbol id).aliased.map Alias.outline = some (type.head, !d'.dims.isEmpty) := by
  refine (binds_declarator scope d).bindWith
    (fun d' => (Grows.changeTable (aliasTo type · d')).bind fun _ => Grows.pure d')
    fun d' bound => ?_
  have outline' : ∀ id, t.definedAt? d'.name.span = some id →
      (t.symbol id).aliased.map Alias.outline = some (type.head, !d'.dims.isEmpty) := by
    rw [bound.name, bound.isEmpty]
    exact outline
  exact (Binds.changeTable fun u steady => steady_aliasTo steady type d' outline').bind
    fun _ => Binds.pure fun _ => ⟨bound.name, bound.sized, outline'⟩

/-- The second definition is the first one bound. -/
structure BoundDefinitions (t : SymbolTable) (ds ds' hs hs' : List Declaration)
    (xs xs' : List Laid) : Prop where
  declarations : ds' = ds
  hidden : hs' = hs
  laid : List.Forall₂ (BoundAs t) xs xs'

theorem grows_declarators (scope : SymbolId) (type : TypeSpec) (ds : List Declarator) :
    Grows (do return (⟨type, ← ds.mapM (typedefDeclarator scope type)⟩ : Typedef)) :=
  (Grows.mapM (grows_typedefDeclarator scope type) ds).bind fun _ => Grows.pure _

theorem grows_typedef (scope : SymbolId) (d : Typedef) : Grows (typedef scope d) :=
  (binds_typeSpec .empty scope d.type).grows.bind fun type =>
    grows_declarators scope type d.declarators

theorem binds_typedef (scope : SymbolId) (d : Typedef)
    (placed : Placed t₀ t d.declarations (d.declarators.map (⟨scope, d.type, ·⟩))) :
    Binds t (typedef scope d) fun d' => d'.declarations = d.declarations ∧
      List.Forall₂ (BoundAs t) (d.type.laid ++ d.declarators.map (.typedef d.type))
        (d'.type.laid ++ d'.declarators.map (.typedef d'.type)) := by
  refine (binds_typeSpec t scope d.type).bindWith
    (fun type' => grows_declarators scope type' d.declarators) fun type' bound => ?_
  have outline (x : Declarator) (mem : x ∈ d.declarators) (id : SymbolId)
      (place : t.definedAt? x.name.span = some id) :
      (t.symbol id).aliased.map Alias.outline = some (type'.head, !x.dims.isEmpty) := by
    rw [placed.frame.definedAt?] at place
    rw [placed.aliases ⟨scope, d.type, x⟩ (List.mem_map_of_mem mem) id place, bound.head,
      namesBound_congr placed.frame.same]
    rfl
  refine (Binds.mapM d.declarators fun x mem =>
    binds_typedefDeclarator scope type' x (outline x mem)).bind fun ds' => Binds.pure fun names =>
      ⟨?_, List.rel_append bound.laid ?_⟩
  · have same : ds'.map (fun x => (⟨x.name, .defined .typedef⟩ : Declaration)) =
        d.declarators.map fun x => ⟨x.name, .defined .typedef⟩ := by
      clear outline placed
      generalize d.declarators = ds at names
      induction names with
      | nil => rfl
      | cons eq _ ih => rw [List.map_cons, List.map_cons, eq.1, ih]
    rw [Typedef.declarations, Typedef.declarations, bound.declarations, same]
  · rw [List.forall₂_map_left_iff, List.forall₂_map_right_iff]
    exact names.imp fun _ _ holds => ⟨bound.settled, holds.2.1, holds.2.2⟩

/-- What a constant is left with: a value of its type, and a slot that holds it. -/
theorem binds_constValue (scope : SymbolId) (type : TypeSpec) (name : Ident) (value : ConstExpr) :
    Binds t (constValue scope type name value) fun r => ∃ constant, r.1.value = some constant ∧
      r.2 = .value constant ∧ t.constType? type = some constant.type ∧
      constant.value.HasType constant.type := by
  refine (Binds.looked (R := fun constType => constType = t.constType? type) fun u steady =>
    SymbolTable.constType?_congr steady.outline rfl).bind fun constType => ?_
  cases constType with
  | none => exact Binds.reported _ _ _ (Binds.pure trivial)
  | some constType =>
    refine (binds_evaluated scope constType value).bind fun r => ?_
    obtain ⟨e, success⟩ := r
    dsimp only
    cases found : e.value with
    | none =>
      refine Binds.pure fun holds => ?_
      obtain ⟨-, v, eq, -⟩ := holds
      rw [found] at eq
      cases eq
    | some constant =>
      cases success with
      | false => exact Binds.pure fun holds => by cases holds.1
      | true =>
        refine Binds.pure fun holds eq => ⟨constant, found, rfl, ?_⟩
        obtain ⟨-, v, value, typed⟩ := holds
        rw [found, Option.some_inj] at value
        rw [value]
        exact ⟨eq.symm, typed⟩

theorem steady_setConstant {u : SymbolTable} (steady : Steady t u) (id : SymbolId)
    (constant : Constant) : Steady t (u.setConstant id (.value constant)) := by
  refine ⟨steady.outline.trans (SameOutline.setConstant u id _), fun i => ?_⟩
  rw [SymbolTable.setConstant, SymbolTable.symbol_modify]
  split
  · simp
  · exact steady.unfailed i

/-- What is left of a constant's declaration once its value is known. -/
def settle (name : Ident) (type : TypeSpec) (r : ConstExpr × ConstSlot) : BindM ConstDecl := do
  match ← defined? name with
  | some id => modify fun b => { b with table := b.table.setConstant id r.2 }
  | none => pure ()
  return ⟨type, name, r.1⟩

theorem constDecl_eq (scope : SymbolId) (d : ConstDecl) :
    constDecl scope d = (do
      let type ← typeSpec scope d.type
      settle d.name type (← constValue scope type d.name d.value)) := rfl

theorem grows_settle (name : Ident) (type : TypeSpec) (r : ConstExpr × ConstSlot) :
    Grows (settle name type r) := by
  refine (Binds.looked (t := .empty) (R := fun _ => True) fun _ _ => trivial).grows.bind
    fun place => ?_
  cases place with
  | none => exact Grows.pure _
  | some id => exact (Grows.changeTable (·.setConstant id r.2)).bind fun _ => Grows.pure _

theorem grows_constDecl (scope : SymbolId) (d : ConstDecl) : Grows (constDecl scope d) := by
  rw [constDecl_eq]
  exact (binds_typeSpec .empty scope d.type).grows.bind fun type =>
    (binds_constValue (t := .empty) scope type d.name d.value).grows.bind fun r =>
      grows_settle d.name type r

theorem binds_constDecl (scope : SymbolId) (d : ConstDecl) :
    Binds t (constDecl scope d) fun d' => d'.name = d.name ∧
      BoundAs t (.const d) (.const d') := by
  rw [constDecl_eq]
  refine (binds_typeSpec t scope d.type).bind fun type' => ?_
  refine (binds_constValue scope type' d.name d.value).bindWith (grows_settle d.name type') ?_
  rintro ⟨e, slot⟩ ⟨constant, value, rfl, typed⟩
  refine (Binds.looked (R := fun _ => True) fun _ _ => trivial).bind fun place => ?_
  cases place with
  | none => exact Binds.pure fun _ bound => ⟨rfl, bound.declarations, constant, value, typed⟩
  | some id =>
    exact (Binds.changeTable fun u steady => steady_setConstant steady id constant).bind fun _ =>
      Binds.pure fun _ _ bound => ⟨rfl, bound.declarations, constant, value, typed⟩

theorem binds_stateMember (scope : SymbolId) (m : StateMember) :
    Binds t (stateMember scope m) fun m' =>
      m'.member.type.declarations = m.member.type.declarations := by
  refine (binds_members t scope [m.member]).bind fun ms => ?_
  cases ms with
  | nil => exact Binds.pure fun _ => rfl
  | cons member rest =>
    refine Binds.pure fun bound => ?_
    have single : rest = [] := List.length_eq_zero_iff.mp (Nat.succ.inj bound.length)
    have declarations := bound.declarations
    simpa [single, memberDeclarations] using declarations

theorem grows_scopeOf (name : Ident) (outer : SymbolId) : Grows (scopeOf name outer) :=
  (binds_scopeOf (t := .empty) name outer).grows

theorem grows_defined {name : Ident} : Grows (defined? name) :=
  fun b => ⟨[], (List.append_nil b.errors).symm⟩

mutual

theorem grows_definition (scope : SymbolId) : (d : Definition) → Grows (definition scope d)
  | ⟨as, kind, span⟩ => by
    rw [definition]
    exact (binds_annotations (t := .empty) scope as).grows.bind fun _ =>
      (grows_definitionKind scope kind).bind fun _ => Grows.pure _

theorem grows_definitionKind (scope : SymbolId) : (kind : DefinitionKind Definition) →
    Grows (definitionKind scope kind)
  | .module ⟨name, ds⟩ => by
    rw [definitionKind]
    refine grows_defined.bind fun place => ?_
    cases place with
    | none => exact Grows.pure _
    | some id => exact (grows_definitions id ds).bind fun _ => Grows.pure _
  | .struct s => by
    rw [definitionKind]
    exact (binds_structType .empty scope s).grows.bind fun _ => Grows.pure _
  | .union u => by
    rw [definitionKind]
    exact (binds_unionType .empty scope u).grows.bind fun _ => Grows.pure _
  | .enum e => by
    rw [definitionKind]
    exact (binds_enumType (t := .empty) scope e).grows.bind fun _ => Grows.pure _
  | .bitset s => by
    rw [definitionKind]
    exact (binds_bitsetType (t := .empty) scope s).grows.bind fun _ => Grows.pure _
  | .bitmask s => by
    rw [definitionKind]
    exact (binds_bitmaskType (t := .empty) scope s).grows.bind fun _ => Grows.pure _
  | .typedef d => by
    rw [definitionKind]
    exact (grows_typedef scope d).bind fun _ => Grows.pure _
  | .const d => by
    rw [definitionKind]
    exact (grows_constDecl scope d).bind fun _ => Grows.pure _
  | .exception d => by
    rw [definitionKind]
    exact (grows_scopeOf d.name scope).bind fun id =>
      (binds_members .empty id d.members).grows.bind fun _ => Grows.pure _
  | .interface ⟨name, _, _, body⟩ => by
    rw [definitionKind]
    exact (grows_scopeOf name scope).bind fun id => (grows_exports id body).bind fun _ =>
      Grows.pure _
  | .value ⟨name, _, _, _, _, body⟩ => by
    rw [definitionKind]
    exact (grows_scopeOf name scope).bind fun id => (grows_exports id body).bind fun _ =>
      Grows.pure _
  | .event ⟨name, _, _, _, _, body⟩ => by
    rw [definitionKind]
    exact (grows_scopeOf name scope).bind fun id => (grows_exports id body).bind fun _ =>
      Grows.pure _
  | .valueBox d => by
    rw [definitionKind]
    exact (binds_typeSpec .empty scope d.type).grows.bind fun _ => Grows.pure _
  | .component ⟨name, _, _, body⟩ => by
    rw [definitionKind]
    exact (grows_scopeOf name scope).bind fun id => (grows_exports id body).bind fun _ =>
      Grows.pure _
  | .home ⟨name, _, _, _, _, body⟩ => by
    rw [definitionKind]
    exact (grows_scopeOf name scope).bind fun id => (grows_exports id body).bind fun _ =>
      Grows.pure _
  | .native _ => by rw [definitionKind]; exact Grows.pure _
  | .forward _ => by rw [definitionKind]; exact Grows.pure _
  | .typeId _ => by rw [definitionKind]; exact Grows.pure _
  | .typePrefix _ => by rw [definitionKind]; exact Grows.pure _
  | .annotationDecl _ => by rw [definitionKind]; exact Grows.pure _

theorem grows_definitions (scope : SymbolId) : (ds : List Definition) →
    Grows (definitions scope ds)
  | [] => by rw [definitions]; exact Grows.pure _
  | d :: ds => by
    rw [definitions]
    exact (grows_definition scope d).bind fun _ => (grows_definitions scope ds).bind fun _ =>
      Grows.pure _

theorem grows_exports (scope : SymbolId) : (es : List (Export Definition)) →
    Grows (exports scope es)
  | [] => by rw [exports]; exact Grows.pure _
  | .definition d :: rest => by
    rw [exports]
    exact (grows_definition scope d).bind fun _ => (grows_exports scope rest).bind fun _ =>
      Grows.pure _
  | .stateMember m :: rest => by
    rw [exports]
    exact (binds_stateMember (t := .empty) scope m).grows.bind fun _ =>
      (grows_exports scope rest).bind fun _ => Grows.pure _
  | .attribute _ :: rest => by
    rw [exports]
    exact (grows_exports scope rest).bind fun _ => Grows.pure _
  | .operation _ :: rest => by
    rw [exports]
    exact (grows_exports scope rest).bind fun _ => Grows.pure _
  | .initializer _ :: rest => by
    rw [exports]
    exact (grows_exports scope rest).bind fun _ => Grows.pure _
  | .port _ :: rest => by
    rw [exports]
    exact (grows_exports scope rest).bind fun _ => Grows.pure _

end

/-- The scope of a name, over the table that has the places. -/
theorem binds_scopeOf_placed {ds : List Declaration} {ps : List PlacedTypedef}
    (placed : Placed t₀ t ds ps) (name : Ident) (outer : SymbolId) :
    Binds t (scopeOf name outer) fun id => id = (t₀.definedAt? name.span).getD outer :=
  (binds_scopeOf name outer).weaken fun id eq => by rw [eq, placed.frame.definedAt?]

mutual

theorem binds_definition (t₀ t : SymbolTable) (scope : SymbolId) : (d : Definition) →
    Placed t₀ t d.declarations (d.typedefs t₀ scope) →
    Binds t (definition scope d) fun d' =>
      BoundDefinitions t d.declarations d'.declarations d.hidden d'.hidden d.laid d'.laid
  | ⟨as, kind, span⟩, placed => by
    rw [definition]
    refine (binds_annotations scope as).bind fun as' =>
      (binds_definitionKind t₀ t scope as as' kind placed).bind fun kind' =>
        Binds.pure fun bound _ => bound

theorem binds_definitionKind (t₀ t : SymbolTable) (scope : SymbolId) (as as' : List AnnotationUse) :
    (kind : DefinitionKind Definition) →
    Placed t₀ t (kindDeclarations kind) (kindTypedefs t₀ scope kind) →
    Binds t (definitionKind scope kind) fun kind' =>
      BoundDefinitions t (kindDeclarations kind) (kindDeclarations kind') (kindHidden kind)
        (kindHidden kind') (kindLaid as kind) (kindLaid as' kind')
  | .module ⟨name, ds⟩, placed => by
    rw [kindDeclarations, kindTypedefs] at placed
    obtain ⟨id, place⟩ := placed.modules name (by simp)
    rw [place] at placed
    rw [definitionKind]
    refine (Binds.looked (R := fun found => found = some id) fun u steady => ?_).bindWith
      (fun found => ?_) ?_
    · exact (steady.outline.frame.definedAt? _).trans ((placed.frame.definedAt? _).trans place)
    · cases found with
      | none => exact Grows.pure _
      | some id => exact (grows_definitions id ds).bind fun _ => Grows.pure _
    · rintro _ rfl
      refine (binds_definitions t₀ t id ds
        (placed.mono (List.subset_cons_self _ _) (List.Subset.refl _))).bind fun ds' =>
          Binds.pure fun bound => ⟨?_, ?_, ?_⟩
      · rw [kindDeclarations, kindDeclarations, bound.declarations]
      · rw [kindHidden, kindHidden, bound.hidden]
      · rw [kindLaid, kindLaid]
        exact bound.laid
  | .struct s, placed => by
    rw [definitionKind]
    refine (binds_structType t scope s).bind fun s' => Binds.pure fun bound => ⟨?_, ?_, ?_⟩
    · rw [kindDeclarations, kindDeclarations, bound.1]
    · rw [kindHidden, kindHidden]
    · rw [kindLaid, kindLaid]
      exact bound.2
  | .union u, placed => by
    rw [definitionKind]
    refine (binds_unionType t scope u).bind fun u' => Binds.pure fun bound => ⟨?_, ?_, ?_⟩
    · rw [kindDeclarations, kindDeclarations, bound.1]
    · rw [kindHidden, kindHidden]
    · rw [kindLaid, kindLaid]
      exact bound.2
  | .enum e, placed => by
    rw [definitionKind]
    refine (binds_enumType scope e).bind fun e' => Binds.pure fun bound => ⟨?_, ?_, ?_⟩
    · rw [kindDeclarations, kindDeclarations, bound.2]
    · rw [kindHidden, kindHidden]
    · rw [kindLaid, kindLaid]
      exact .cons trivial .nil
  | .bitset s, placed => by
    rw [definitionKind]
    refine (binds_bitsetType scope s).bind fun s' => Binds.pure fun bound => ⟨?_, ?_, ?_⟩
    · rw [kindDeclarations, kindDeclarations, bound.1]
    · rw [kindHidden, kindHidden]
    · rw [kindLaid, kindLaid]
      exact .cons bound.2 .nil
  | .bitmask s, placed => by
    rw [definitionKind]
    refine (binds_bitmaskType scope s).bind fun s' => Binds.pure fun bound => ⟨?_, ?_, ?_⟩
    · rw [kindDeclarations, kindDeclarations, bound.2]
    · rw [kindHidden, kindHidden]
    · rw [kindLaid, kindLaid]
      exact .cons trivial .nil
  | .typedef d, placed => by
    rw [kindDeclarations, kindTypedefs] at placed
    rw [definitionKind]
    refine (binds_typedef scope d placed).bind fun d' => Binds.pure fun bound => ⟨?_, ?_, ?_⟩
    · rw [kindDeclarations, kindDeclarations, bound.1]
    · rw [kindHidden, kindHidden]
    · rw [kindLaid, kindLaid]
      exact bound.2
  | .const d, placed => by
    rw [definitionKind]
    refine (binds_constDecl scope d).bind fun d' => Binds.pure fun bound => ⟨?_, ?_, ?_⟩
    · rw [kindDeclarations, kindDeclarations, bound.1]
    · rw [kindHidden, kindHidden, bound.2.1]
    · rw [kindLaid, kindLaid]
      exact .cons bound.2 .nil
  | .exception d, placed => by
    rw [definitionKind]
    refine (binds_scopeOf d.name scope).bind fun id =>
      (binds_members t id d.members).bind fun ms => Binds.pure fun bound _ => ⟨?_, ?_, ?_⟩
    · rw [kindDeclarations, kindDeclarations, bound.declarations]
    · rw [kindHidden, kindHidden]
    · rw [kindLaid, kindLaid]
      exact .cons bound.settled bound.laid
  | .interface ⟨name, _, _, body⟩, placed => by
    rw [kindDeclarations, kindTypedefs] at placed
    rw [definitionKind]
    refine (binds_scopeOf_placed placed name scope).bindWith
      (fun id => (grows_exports id body).bind fun _ => Grows.pure _) ?_
    rintro _ rfl
    refine (binds_exports t₀ t _ body (placed.mono (List.subset_cons_self _ _)
      (List.Subset.refl _))).bind fun body' => Binds.pure fun bound => ⟨?_, ?_, ?_⟩
    · rw [kindDeclarations, kindDeclarations, bound.declarations]
    · rw [kindHidden, kindHidden, bound.hidden]
    · rw [kindLaid, kindLaid]
      exact .cons trivial bound.laid
  | .value ⟨name, _, _, _, _, body⟩, placed => by
    rw [kindDeclarations, kindTypedefs] at placed
    rw [definitionKind]
    refine (binds_scopeOf_placed placed name scope).bindWith
      (fun id => (grows_exports id body).bind fun _ => Grows.pure _) ?_
    rintro _ rfl
    refine (binds_exports t₀ t _ body (placed.mono (List.subset_cons_self _ _)
      (List.Subset.refl _))).bind fun body' => Binds.pure fun bound => ⟨?_, ?_, ?_⟩
    · rw [kindDeclarations, kindDeclarations, bound.declarations]
    · rw [kindHidden, kindHidden, bound.hidden]
    · rw [kindLaid, kindLaid]
      exact .cons trivial bound.laid
  | .event ⟨name, _, _, _, _, body⟩, placed => by
    rw [kindDeclarations, kindTypedefs] at placed
    rw [definitionKind]
    refine (binds_scopeOf_placed placed name scope).bindWith
      (fun id => (grows_exports id body).bind fun _ => Grows.pure _) ?_
    rintro _ rfl
    refine (binds_exports t₀ t _ body (placed.mono (List.subset_cons_self _ _)
      (List.Subset.refl _))).bind fun body' => Binds.pure fun bound => ⟨?_, ?_, ?_⟩
    · rw [kindDeclarations, kindDeclarations, bound.declarations]
    · rw [kindHidden, kindHidden, bound.hidden]
    · rw [kindLaid, kindLaid]
      exact .cons trivial bound.laid
  | .valueBox d, placed => by
    rw [definitionKind]
    refine (binds_typeSpec t scope d.type).bind fun type => Binds.pure fun bound => ⟨?_, ?_, ?_⟩
    · rw [kindDeclarations, kindDeclarations]
    · rw [kindHidden, kindHidden, bound.declarations]
    · rw [kindLaid, kindLaid]
      exact .cons trivial .nil
  | .component ⟨name, _, _, body⟩, placed => by
    rw [kindDeclarations, kindTypedefs] at placed
    rw [definitionKind]
    refine (binds_scopeOf_placed placed name scope).bindWith
      (fun id => (grows_exports id body).bind fun _ => Grows.pure _) ?_
    rintro _ rfl
    refine (binds_exports t₀ t _ body (placed.mono (List.subset_cons_self _ _)
      (List.Subset.refl _))).bind fun body' => Binds.pure fun bound => ⟨?_, ?_, ?_⟩
    · rw [kindDeclarations, kindDeclarations, bound.declarations]
    · rw [kindHidden, kindHidden, bound.hidden]
    · rw [kindLaid, kindLaid]
      exact .cons trivial bound.laid
  | .home ⟨name, _, _, _, _, body⟩, placed => by
    rw [kindDeclarations, kindTypedefs] at placed
    rw [definitionKind]
    refine (binds_scopeOf_placed placed name scope).bindWith
      (fun id => (grows_exports id body).bind fun _ => Grows.pure _) ?_
    rintro _ rfl
    refine (binds_exports t₀ t _ body (placed.mono (List.subset_cons_self _ _)
      (List.Subset.refl _))).bind fun body' => Binds.pure fun bound => ⟨?_, ?_, ?_⟩
    · rw [kindDeclarations, kindDeclarations, bound.declarations]
    · rw [kindHidden, kindHidden, bound.hidden]
    · rw [kindLaid, kindLaid]
      exact .cons trivial bound.laid
  | .native _, _ => by
    rw [definitionKind]
    exact Binds.pure ⟨rfl, rfl, by rw [kindLaid, kindLaid]; exact .cons trivial .nil⟩
  | .forward _, _ => by
    rw [definitionKind]
    exact Binds.pure ⟨rfl, rfl, by rw [kindLaid, kindLaid]; exact .nil⟩
  | .typeId _, _ => by
    rw [definitionKind]
    exact Binds.pure ⟨rfl, rfl, by rw [kindLaid, kindLaid]; exact .nil⟩
  | .typePrefix _, _ => by
    rw [definitionKind]
    exact Binds.pure ⟨rfl, rfl, by rw [kindLaid, kindLaid]; exact .nil⟩
  | .annotationDecl _, _ => by
    rw [definitionKind]
    exact Binds.pure ⟨rfl, rfl, by rw [kindLaid, kindLaid]; exact .nil⟩

theorem binds_definitions (t₀ t : SymbolTable) (scope : SymbolId) : (ds : List Definition) →
    Placed t₀ t (allDeclarations ds) (allTypedefs t₀ scope ds) →
    Binds t (definitions scope ds) fun ds' =>
      BoundDefinitions t (allDeclarations ds) (allDeclarations ds') (allHidden ds) (allHidden ds')
        (allLaid ds) (allLaid ds')
  | [], _ => by
    rw [definitions]
    exact Binds.pure ⟨rfl, rfl, by rw [allLaid]; exact .nil⟩
  | d :: ds, placed => by
    rw [allDeclarations, allTypedefs] at placed
    rw [definitions]
    refine (binds_definition t₀ t scope d (placed.mono (List.subset_append_left _ _)
      (List.subset_append_left _ _))).bind fun d' =>
        (binds_definitions t₀ t scope ds (placed.mono (List.subset_append_right _ _)
          (List.subset_append_right _ _))).bind fun ds' => Binds.pure fun rest first => ⟨?_, ?_, ?_⟩
    · rw [allDeclarations, allDeclarations, first.declarations, rest.declarations]
    · rw [allHidden, allHidden, first.hidden, rest.hidden]
    · rw [allLaid, allLaid]
      exact List.rel_append first.laid rest.laid

theorem binds_exports (t₀ t : SymbolTable) (scope : SymbolId) : (es : List (Export Definition)) →
    Placed t₀ t (exportDeclarations es) (exportTypedefs t₀ scope es) →
    Binds t (exports scope es) fun es' =>
      BoundDefinitions t (exportDeclarations es) (exportDeclarations es') (exportHidden es)
        (exportHidden es') (exportLaid es) (exportLaid es')
  | [], _ => by
    rw [exports]
    exact Binds.pure ⟨rfl, rfl, by rw [exportLaid]; exact .nil⟩
  | .definition d :: rest, placed => by
    rw [exportDeclarations, exportTypedefs] at placed
    rw [exports]
    refine (binds_definition t₀ t scope d (placed.mono (List.subset_append_left _ _)
      (List.subset_append_left _ _))).bind fun d' =>
        (binds_exports t₀ t scope rest (placed.mono (List.subset_append_right _ _)
          (List.subset_append_right _ _))).bind fun rest' => Binds.pure fun more first =>
            ⟨?_, ?_, ?_⟩
    · rw [exportDeclarations, exportDeclarations, first.declarations, more.declarations]
    · rw [exportHidden, exportHidden, first.hidden, more.hidden]
    · rw [exportLaid, exportLaid]
      exact List.rel_append first.laid more.laid
  | .stateMember m :: rest, placed => by
    rw [exportDeclarations, exportTypedefs] at placed
    rw [exports]
    refine (binds_stateMember scope m).bind fun m' =>
      (binds_exports t₀ t scope rest (placed.mono (List.subset_append_right _ _)
        (List.Subset.refl _))).bind fun rest' => Binds.pure fun more first => ⟨?_, ?_, ?_⟩
    · rw [exportDeclarations, exportDeclarations, first, more.declarations]
    · rw [exportHidden, exportHidden, more.hidden]
    · rw [exportLaid, exportLaid]
      exact more.laid
  | .attribute _ :: rest, placed => by
    rw [exportDeclarations, exportTypedefs] at placed
    rw [exports]
    refine (binds_exports t₀ t scope rest placed).bind fun rest' => Binds.pure fun bound =>
      ⟨?_, ?_, ?_⟩
    · rw [exportDeclarations, exportDeclarations, bound.declarations]
    · rw [exportHidden, exportHidden, bound.hidden]
    · rw [exportLaid, exportLaid]
      exact bound.laid
  | .operation _ :: rest, placed => by
    rw [exportDeclarations, exportTypedefs] at placed
    rw [exports]
    refine (binds_exports t₀ t scope rest placed).bind fun rest' => Binds.pure fun bound =>
      ⟨?_, ?_, ?_⟩
    · rw [exportDeclarations, exportDeclarations, bound.declarations]
    · rw [exportHidden, exportHidden, bound.hidden]
    · rw [exportLaid, exportLaid]
      exact bound.laid
  | .initializer _ :: rest, placed => by
    rw [exportDeclarations, exportTypedefs] at placed
    rw [exports]
    refine (binds_exports t₀ t scope rest placed).bind fun rest' => Binds.pure fun bound =>
      ⟨?_, ?_, ?_⟩
    · rw [exportDeclarations, exportDeclarations, bound.declarations]
    · rw [exportHidden, exportHidden, bound.hidden]
    · rw [exportLaid, exportLaid]
      exact bound.laid
  | .port _ :: rest, placed => by
    rw [exportDeclarations, exportTypedefs] at placed
    rw [exports]
    refine (binds_exports t₀ t scope rest placed).bind fun rest' => Binds.pure fun bound =>
      ⟨?_, ?_, ?_⟩
    · rw [exportDeclarations, exportDeclarations, bound.declarations]
    · rw [exportHidden, exportHidden, bound.hidden]
    · rw [exportLaid, exportLaid]
      exact bound.laid

end

end Binding

/-- A unit that binds without errors: its declarations are those that were written, each bound over
the finished table, which has the names of the table it was bound over. -/
theorem bound_of_bindUnit {s : Specification} {t : SymbolTable} (entered : Entered t s.declarations)
    (apart : Apart s.declarations) (errors : (bindUnit s t).errors = []) :
    SameFrame t (bindUnit s t).table ∧ (bindUnit s t).table.Unfailed ∧
      (bindUnit s t).specification.declarations = s.declarations ∧
      (bindUnit s t).specification.hidden = s.hidden ∧
      List.Forall₂ (BoundAs (bindUnit s t).table) s.laid (bindUnit s t).specification.laid := by
  have prepass := allAliases_eq t SymbolTable.rootId s.definitions t (SameFrame.refl t)
  have placed : Placed t (allAliases SymbolTable.rootId s.definitions t) s.declarations
      (allTypedefs t SymbolTable.rootId s.definitions) := by
    refine ⟨?_, entered.modules, fun p mem id place => aliased_allAliases entered apart mem place⟩
    rw [prepass]
    exact sameFrame_enterAliases (SameFrame.refl t) _
  have steady : Steady (allAliases SymbolTable.rootId s.definitions t)
      (allAliases SymbolTable.rootId s.definitions t) := by
    refine ⟨SameOutline.refl _, fun id => ?_⟩
    rw [prepass, constant_enterAliases (SameFrame.refl t)]
    exact entered.unfailed id
  obtain ⟨es, run, claim⟩ := binds_definitions t _ SymbolTable.rootId s.definitions placed
    ⟨allAliases SymbolTable.rootId s.definitions t, []⟩
  have none : es = [] := by
    rw [List.nil_append] at run
    exact run.symm.trans errors
  obtain ⟨final, bound⟩ := claim none steady
  exact ⟨placed.frame.trans final.outline.frame, final.unfailed, bound.declarations, bound.hidden,
    bound.laid.imp fun _ _ holds => holds.congr final.outline⟩

end Idl
