import Idl.Proofs.Scope.Together
import Idl.Proofs.Syntax.Site

/-!
How the symbols of a unit are entered around a place among definitions: those in front of the place
first, so that the builder arrives there in one state whatever is in the place. Main statement:
`exists_departure`.
-/

set_option autoImplicit false

namespace Idl

namespace ScopeBuilder

theorem definitions_append (scope : SymbolId) (ds es : List Definition) (b : ScopeBuilder) :
    definitions scope (ds ++ es) b = definitions scope es (definitions scope ds b) := by
  induction ds generalizing b with
  | nil => rfl
  | cons d ds ih => rw [List.cons_append, definitions, definitions, ih]

theorem exports_append (scope : SymbolId) (xs ys : List (Export Definition)) (b : ScopeBuilder) :
    exports scope (xs ++ ys) b = exports scope ys (exports scope xs b) := by
  induction xs generalizing b with
  | nil => rfl
  | cons x xs ih =>
    rw [List.cons_append]
    cases x <;> rw [exports, exports, ih]

theorem exports_map (scope : SymbolId) (ds : List Definition) (b : ScopeBuilder) :
    exports scope (ds.map .definition) b = definitions scope ds b := by
  induction ds generalizing b with
  | nil => rfl
  | cons d ds ih => rw [List.map_cons, exports, definitions, ih]

theorem definitions_single (scope : SymbolId) (as : List AnnotationUse)
    (kind : DefinitionKind Definition) (span : Span) (b : ScopeBuilder) :
    definitions scope [⟨as, kind, span⟩] b = definitionKind scope kind b := by
  rw [definitions, definition, definitions]

end ScopeBuilder

open ScopeBuilder

namespace Owner

/-- Enters the name of the owner. -/
def enter (scope : SymbolId) (b : ScopeBuilder) : Owner → SymbolId × ScopeBuilder
  | interface name _ _ => b.complete scope name .interface
  | value name _ _ _ _ => b.complete scope name .value
  | event name _ _ _ _ => b.complete scope name .event
  | component name _ _ => b.complete scope name .component
  | home name _ _ _ _ => b.declare scope name .home

theorem definitionKind_close (scope : SymbolId) (owner : Owner)
    (body : List (Export Definition)) (b : ScopeBuilder) :
    definitionKind scope (owner.close body) b =
      exports (owner.enter scope b).1 body (owner.enter scope b).2 := by
  cases owner <;> rw [close, definitionKind] <;> rfl

end Owner

namespace Site

/-- The builder as it arrives at the place, with the scope there. It does not come to places in
annotations. -/
def arrive (scope : SymbolId) (b : ScopeBuilder) : Site → Option SymbolId × ScopeBuilder
  | hole => (some scope, b)
  | beside before inner _ => inner.arrive scope (definitions scope before b)
  | module _ name inner _ =>
    inner.arrive (b.openModule scope name).1 (b.openModule scope name).2
  | body _ owner before inner _ _ =>
    inner.arrive (owner.enter scope b).1 (exports (owner.enter scope b).1 before
      (owner.enter scope b).2)
  | annotationDecl _ _ _ _ _ => (none, b)

end Site

/-- Enters definitions at a place where the builder has arrived. -/
def enterAt (place : Option SymbolId × ScopeBuilder) (ds : List Definition) : ScopeBuilder :=
  match place with
  | (some scope, b) => definitions scope ds b
  | (none, b) => b

/-- What follows a place is entered in one way. -/
theorem exists_departure (c : Site) (scope : SymbolId) (b : ScopeBuilder) :
    ∃ depart : ScopeBuilder → ScopeBuilder,
      (∀ ds, definitions scope (c.fill ds) b = depart (enterAt (c.arrive scope b) ds)) ∧
      ∀ (P : Ident → Prop) (R : ScopeBuilder → ScopeBuilder → Prop), Keeps P R →
        NamedBy P c.behind → ∀ x y, R x y → R (depart x) (depart y) := by
  induction c generalizing scope b with
  | hole => exact ⟨fun x => x, fun _ => rfl, fun _ _ _ _ _ _ related => related⟩
  | beside before inner after ih =>
    obtain ⟨depart, whole, related⟩ := ih scope (definitions scope before b)
    refine ⟨fun x => definitions scope after (depart x), fun ds => ?_,
      fun P R keeps named x y xy => ?_⟩
    · rw [Site.fill, definitions_append, definitions_append, whole]
      rfl
    · rw [Site.behind, namedBy_append] at named
      exact keeps.definitions scope after _ _ (related P R keeps named.1 x y xy) named.2
  | module as name inner span ih =>
    obtain ⟨depart, whole, related⟩ := ih (b.openModule scope name).1 (b.openModule scope name).2
    refine ⟨depart, fun ds => ?_, related⟩
    rw [Site.fill, definitions_single, definitionKind]
    exact whole ds
  | body as owner before inner after span ih =>
    let id := (owner.enter scope b).1
    obtain ⟨depart, whole, related⟩ := ih id (exports id before (owner.enter scope b).2)
    refine ⟨fun x => exports id after (depart x), fun ds => ?_, fun P R keeps named x y xy => ?_⟩
    · rw [Site.fill, definitions_single, Owner.definitionKind_close, exports_append,
        exports_append, exports_map, whole]
      rfl
    · rw [Site.behind, namedBy_append] at named
      exact keeps.exports id after _ _ (related P R keeps named.1 x y xy) named.2
  | annotationDecl as name members inner span =>
    refine ⟨fun x => x, fun ds => ?_, fun _ _ _ _ _ _ related => related⟩
    rw [Site.fill, definitions_single, definitionKind]
    rfl

end Idl
