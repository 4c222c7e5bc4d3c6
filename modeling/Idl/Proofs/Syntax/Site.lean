import Idl.Proofs.Scope.Declaration

/-!
A place among the definitions of a tree, at any depth of modules and bodies, with all that stands
around it. What a pass that takes definitions one after another does to a tree depends on what it
does to a place in it. Main statements: `Site.declarations_fill` and `Serial.definitions_fill`.
-/

set_option autoImplicit false

namespace Idl

/-- What owns a body of exports, apart from the body. -/
inductive Owner
  | interface (name : Ident) (qualifier : Option Qualifier) (bases : List ScopedName)
  | value (name : Ident) (qualifier : Option Qualifier) (truncatable : Bool)
      (bases supports : List ScopedName)
  | event (name : Ident) (qualifier : Option Qualifier) (truncatable : Bool)
      (bases supports : List ScopedName)
  | component (name : Ident) (base : Option ScopedName) (supports : List ScopedName)
  | home (name : Ident) (base : Option ScopedName) (supports : List ScopedName)
      (manages : ScopedName) (primaryKey : Option ScopedName)

namespace Owner

def name : Owner → Ident
  | interface name _ _ => name
  | value name _ _ _ _ => name
  | event name _ _ _ _ => name
  | component name _ _ => name
  | home name _ _ _ _ => name

def kind : Owner → SymbolKind
  | interface _ _ _ => .interface
  | value _ _ _ _ _ => .value
  | event _ _ _ _ _ => .event
  | component _ _ _ => .component
  | home _ _ _ _ _ => .home

/-- The owner with its body. -/
def close (body : List (Export Definition)) : Owner → DefinitionKind Definition
  | interface name q bases => .interface ⟨name, q, bases, body⟩
  | value name q truncatable bases supports =>
    .value ⟨name, q, truncatable, bases, supports, body⟩
  | event name q truncatable bases supports =>
    .event ⟨name, q, truncatable, bases, supports, body⟩
  | component name base supports => .component ⟨name, base, supports, body⟩
  | home name base supports manages key => .home ⟨name, base, supports, manages, key, body⟩

end Owner

/-- What stands around a place among definitions. -/
inductive Site
  | hole
  | beside (before : List Definition) (inner : Site) (after : List Definition)
  | module (annotations : List AnnotationUse) (name : Ident) (inner : Site) (span : Span)
  | body (annotations : List AnnotationUse) (owner : Owner) (before : List (Export Definition))
      (inner : Site) (after : List (Export Definition)) (span : Span)
  | annotationDecl (annotations : List AnnotationUse) (name : Ident)
      (members : List AnnotationMember) (inner : Site) (span : Span)

namespace Site

/-- The tree with the definitions in the place. -/
def fill (ds : List Definition) : Site → List Definition
  | hole => ds
  | beside before inner after => before ++ inner.fill ds ++ after
  | module as name inner span => [⟨as, .module ⟨name, inner.fill ds⟩, span⟩]
  | body as owner before inner after span =>
    [⟨as, owner.close (before ++ (inner.fill ds).map .definition ++ after), span⟩]
  | annotationDecl as name members inner span =>
    [⟨as, .annotationDecl ⟨name, members, inner.fill ds⟩, span⟩]

/-- The site without what stands behind the place. No pass looks into annotations, so they stay
whole. -/
def front : Site → Site
  | hole => hole
  | beside before inner _ => beside before inner.front []
  | module as name inner span => module as name inner.front span
  | body as owner before inner _ span => body as owner before inner.front [] span
  | annotationDecl as name members inner span => annotationDecl as name members inner span

/-- The way to the place: past how many definitions or exports it goes, and where it goes in. -/
def path : Site → List (Option Nat)
  | hole => []
  | beside before inner _ => some before.length :: inner.path
  | module _ _ inner _ => none :: inner.path
  | body _ _ before inner _ _ => none :: some before.length :: inner.path
  | annotationDecl _ _ _ inner _ => none :: inner.path

/-- Passes come to the place: it is not in an annotation. -/
def isOpen : Site → Bool
  | hole => true
  | beside _ inner _ => inner.isOpen
  | module _ _ inner _ => inner.isOpen
  | body _ _ _ inner _ _ => inner.isOpen
  | annotationDecl _ _ _ _ _ => false

/-- The declarations in front of the place. -/
def ahead : Site → List Declaration
  | hole => []
  | beside before inner _ => allDeclarations before ++ inner.ahead
  | module _ name inner _ => ⟨name, .module⟩ :: inner.ahead
  | body _ owner before inner _ _ =>
    ⟨owner.name, .defined owner.kind⟩ :: (exportDeclarations before ++ inner.ahead)
  | annotationDecl _ _ _ _ _ => []

/-- The declarations behind the place. -/
def behind : Site → List Declaration
  | hole => []
  | beside _ inner after => inner.behind ++ allDeclarations after
  | module _ _ inner _ => inner.behind
  | body _ _ _ inner after _ => inner.behind ++ exportDeclarations after
  | annotationDecl _ _ _ _ _ => []

end Site

theorem allDeclarations_append (ds es : List Definition) :
    allDeclarations (ds ++ es) = allDeclarations ds ++ allDeclarations es := by
  induction ds with
  | nil => rfl
  | cons d ds ih => rw [List.cons_append, allDeclarations, allDeclarations, ih, List.append_assoc]

theorem exportDeclarations_append (xs ys : List (Export Definition)) :
    exportDeclarations (xs ++ ys) = exportDeclarations xs ++ exportDeclarations ys := by
  induction xs with
  | nil => rfl
  | cons x xs ih =>
    rw [List.cons_append]
    cases x <;> simp only [exportDeclarations, ih, List.append_assoc]

theorem exportDeclarations_map (ds : List Definition) :
    exportDeclarations (ds.map .definition) = allDeclarations ds := by
  induction ds with
  | nil => rfl
  | cons d ds ih => rw [List.map_cons, exportDeclarations, allDeclarations, ih]

theorem Owner.declarations_close (owner : Owner) (body : List (Export Definition)) :
    kindDeclarations (owner.close body) =
      ⟨owner.name, .defined owner.kind⟩ :: exportDeclarations body := by
  cases owner <;> rw [close, kindDeclarations] <;> rfl

namespace Site

/-- Declarations of a filled site, in their order. -/
theorem declarations_fill (c : Site) (ds : List Definition) :
    allDeclarations (c.fill ds) =
      c.ahead ++ ((bif c.isOpen then allDeclarations ds else []) ++ c.behind) := by
  induction c with
  | hole => simp [fill, ahead, behind, isOpen]
  | beside before inner after ih =>
    simp only [fill, ahead, behind, isOpen, allDeclarations_append, ih, List.append_assoc]
  | module as name inner span ih =>
    simp only [fill, ahead, behind, isOpen, allDeclarations, Definition.declarations,
      kindDeclarations, ih, List.append_nil, List.cons_append]
  | body as owner before inner after span ih =>
    simp only [fill, ahead, behind, isOpen, allDeclarations, Definition.declarations,
      Owner.declarations_close, exportDeclarations_append, exportDeclarations_map, ih,
      List.append_nil, List.cons_append, List.append_assoc]
  | annotationDecl as name members inner span =>
    simp [fill, ahead, behind, isOpen, allDeclarations, Definition.declarations, kindDeclarations]

theorem ahead_front (c : Site) : c.front.ahead = c.ahead := by
  induction c <;> simp_all [front, ahead]

theorem behind_front (c : Site) : c.front.behind = [] := by
  induction c <;> simp_all [front, behind, allDeclarations, exportDeclarations]

theorem isOpen_front (c : Site) : c.front.isOpen = c.isOpen := by
  induction c <;> simp_all [front, isOpen]

end Site

/-! Passes that take definitions one after another, and a module as the definitions in it. -/

/-- A pass that takes definitions and exports in their order, and does not look into annotations.
-/
structure Serial (m : Type → Type) [Monad m] where
  kind : List AnnotationUse → DefinitionKind Definition → m Unit
  definitions : List Definition → m Unit
  item : Export Definition → m Unit
  exports : List (Export Definition) → m Unit
  /-- What follows a body. -/
  finish : Owner → m Unit
  definitions_nil : definitions [] = pure ()
  definitions_cons : ∀ as k span ds,
    definitions (⟨as, k, span⟩ :: ds) = (do kind as k; definitions ds)
  exports_nil : exports [] = pure ()
  exports_cons : ∀ x xs, exports (x :: xs) = (do item x; exports xs)
  item_definition : ∀ as k span, item (.definition ⟨as, k, span⟩) = kind as k
  kind_module : ∀ as name ds, kind as (.module ⟨name, ds⟩) = definitions ds
  kind_close : ∀ as owner body, kind as (owner.close body) = (do exports body; finish owner)
  kind_annotationDecl : ∀ as decl, kind as (.annotationDecl decl) = pure ()

namespace Serial

variable {m : Type → Type} [Monad m] (p : Serial m)

/-- Definitions in a body are taken as others are. -/
theorem exports_map (ds : List Definition) : p.exports (ds.map .definition) = p.definitions ds := by
  induction ds with
  | nil => rw [List.map_nil, p.exports_nil, p.definitions_nil]
  | cons d ds ih =>
    obtain ⟨as, kind, span⟩ := d
    rw [List.map_cons, p.exports_cons, p.item_definition, p.definitions_cons, ih]

variable [LawfulMonad m]

theorem definitions_append (ds es : List Definition) :
    p.definitions (ds ++ es) = (do p.definitions ds; p.definitions es) := by
  induction ds with
  | nil => rw [List.nil_append, p.definitions_nil, pure_bind]
  | cons d ds ih =>
    obtain ⟨as, kind, span⟩ := d
    rw [List.cons_append, p.definitions_cons, p.definitions_cons, ih, bind_assoc]

theorem exports_append (xs ys : List (Export Definition)) :
    p.exports (xs ++ ys) = (do p.exports xs; p.exports ys) := by
  induction xs with
  | nil => rw [List.nil_append, p.exports_nil, pure_bind]
  | cons x xs ih => rw [List.cons_append, p.exports_cons, p.exports_cons, ih, bind_assoc]

theorem definitions_single (as : List AnnotationUse) (kind : DefinitionKind Definition)
    (span : Span) : p.definitions [⟨as, kind, span⟩] = p.kind as kind := by
  rw [p.definitions_cons, p.definitions_nil]
  exact bind_pure _

/-- Definitions that are taken alike may stand for each other. -/
theorem definitions_fill {ds es : List Definition} (same : p.definitions ds = p.definitions es)
    (c : Site) : p.definitions (c.fill ds) = p.definitions (c.fill es) := by
  induction c with
  | hole => exact same
  | beside before inner after ih =>
    rw [Site.fill, Site.fill]
    simp only [p.definitions_append, ih]
  | module as name inner span ih =>
    rw [Site.fill, Site.fill, p.definitions_single, p.definitions_single, p.kind_module,
      p.kind_module, ih]
  | body as owner before inner after span ih =>
    rw [Site.fill, Site.fill, p.definitions_single, p.definitions_single, p.kind_close,
      p.kind_close]
    simp only [p.exports_append, p.exports_map, ih]
  | annotationDecl as name members inner span =>
    rw [Site.fill, Site.fill, p.definitions_single, p.definitions_single, p.kind_annotationDecl,
      p.kind_annotationDecl]

end Serial

end Idl
