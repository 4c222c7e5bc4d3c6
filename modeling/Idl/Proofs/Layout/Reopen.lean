import Idl.Analysis
import Idl.Proofs.Binding.Forget
import Idl.Proofs.Binding.Passage
import Idl.Proofs.Layout.Forget
import Idl.Proofs.Layout.Read
import Idl.Proofs.Rules.Forget
import Idl.Proofs.Scope.Pending
import Idl.Proofs.Syntax.Site

/-!
The meaning of a unit in which a module is closed and opened again: it is that of the unit with the
module in one piece. Main statement: `sameMeaning_of_reopens`.
-/

set_option autoImplicit false

namespace Idl

/-! The passes over a bound unit. -/

/-- The rules are checked one definition after another. -/
def Rules.serial : Serial Rules.CheckM where
  kind := definitionKind
  definitions := definitions
  item
    | .definition d => definition d
    | .stateMember m => members [m.member]
    | .attribute _ | .operation _ | .initializer _ | .port _ => pure ()
  exports := exports
  finish _ := pure ()
  definitions_nil := by rw [definitions]
  definitions_cons _ _ _ _ := by rw [definitions, definition]
  exports_nil := by rw [exports]
  exports_cons x _ := by cases x <;> rw [exports] <;> rfl
  item_definition _ _ _ := by
    dsimp only
    rw [definition]
  kind_module _ _ _ := by rw [definitionKind]
  kind_close _ owner _ := by cases owner <;> rw [Owner.close, definitionKind] <;> rfl
  kind_annotationDecl _ _ := by rw [definitionKind]

/-- Layouts are added one definition after another. -/
def Layout.serial : Serial Layout.LayoutM where
  kind := definitionKind
  definitions := definitions
  item
    | .definition d => definition d
    | .stateMember _ | .attribute _ | .operation _ | .initializer _ | .port _ => pure ()
  exports := exports
  finish owner := sealedEntry owner.name
  definitions_nil := by rw [definitions]
  definitions_cons _ _ _ _ := by rw [definitions, definition]
  exports_nil := by rw [exports]
  exports_cons x _ := by cases x <;> rw [exports] <;> rfl
  item_definition _ _ _ := by
    dsimp only
    rw [definition]
  kind_module _ _ _ := by rw [definitionKind]
  kind_close _ owner _ := by cases owner <;> rw [Owner.close, definitionKind] <;> rfl
  kind_annotationDecl _ _ := by rw [definitionKind]

/-- It does not matter where definitions of a module are cut apart. -/
theorem Serial.definitions_pieces {m : Type → Type} [Monad m] [LawfulMonad m] (s : Serial m)
    (p : ModuleCut) : s.definitions p.pieces = s.definitions p.piece := by
  rw [ModuleCut.pieces, ModuleCut.piece, s.definitions_cons, s.definitions_single,
    s.definitions_single, s.kind_module, s.kind_module, s.kind_module, s.definitions_append]

theorem breachesOf_parts (p : ModuleCut) (t : SymbolTable) :
    breachesOf p.parts t = breachesOf p.whole t := by
  have same : Rules.definitions (p.site.fill p.pieces) = Rules.definitions (p.site.fill p.piece) :=
    Rules.serial.definitions_fill (Rules.serial.definitions_pieces p) p.site
  rw [breachesOf, breachesOf, ModuleCut.parts, ModuleCut.whole, same]

theorem buildModel_parts (p : ModuleCut) (t : SymbolTable) :
    buildModel p.parts t = buildModel p.whole t := by
  have same : Layout.definitions (p.site.fill p.pieces) =
      Layout.definitions (p.site.fill p.piece) :=
    Layout.serial.definitions_fill (Layout.serial.definitions_pieces p) p.site
  rw [buildModel, buildModel, ModuleCut.parts, ModuleCut.whole, same]

/-- Two units have the same symbols, with the same values and types behind them, give rise to the
same messages in the same order, and have the same layouts. -/
structure SameMeaning (s r : Specification) : Prop where
  symbols : (buildScopes r).table.symbols = (buildScopes s).table.symbols
  redeclarations : (buildScopes r).table.redeclarations = (buildScopes s).table.redeclarations
  mismatches : (buildScopes r).mismatches = (buildScopes s).mismatches
  boundSymbols : (bindUnit r (buildScopes r).table).table.symbols =
    (bindUnit s (buildScopes s).table).table.symbols
  errors : (bindUnit r (buildScopes r).table).errors = (bindUnit s (buildScopes s).table).errors
  breaches : breachesOf (bindUnit r (buildScopes r).table).specification
      (bindUnit r (buildScopes r).table).table =
    breachesOf (bindUnit s (buildScopes s).table).specification
      (bindUnit s (buildScopes s).table).table
  model : buildModel (bindUnit r (buildScopes r).table).specification
      (bindUnit r (buildScopes r).table).table =
    buildModel (bindUnit s (buildScopes s).table).specification
      (bindUnit s (buildScopes s).table).table

/-- What analysis says of the units is the same. -/
theorem SameMeaning.analyze {s r : Specification} (same : SameMeaning s r) (strictForward : Bool) :
    (analyze strictForward r).diagnostics = (analyze strictForward s).diagnostics ∧
      (analyze strictForward r).model = (analyze strictForward s).model := by
  refine ⟨?_, same.model⟩
  simp only [Idl.analyze, same.mismatches, same.errors, same.breaches]

/-- A module of a unit that was read may be opened again at every other place, unless its scope
holds its name for something else. -/
theorem ModuleCut.reopens_of_read {limit : Nat} {text : String} {p : ModuleCut}
    (read : (parseText limit text).specification = p.whole) (same : p.again.name = p.name.name)
    (fresh : NamedBy (Ident.Avoids p.again.span.offset) (allInventory p.whole.definitions))
    (admits : ∀ scope b, p.site.arrive SymbolTable.rootId ⟨.empty, []⟩ = (some scope, b) →
      b.Admits scope p.name) : p.Reopens := by
  have placed := wellPlaced_parseText limit text
  rw [read] at placed
  exact ⟨same, fresh, own_of_apart placed.apart, admits⟩

/-- In `module O { module M { const long A = 1; const long B = A; }; };`, the module `M` cut between
its constants and opened again. -/
def moduleInside : ModuleCut where
  imports := []
  site := .module [] ⟨"O", ⟨7, 1, 1, 8⟩⟩ .hole ⟨0, 63, 1, 1⟩
  annotations := []
  name := ⟨"M", ⟨18, 1, 1, 19⟩⟩
  first := [⟨[], .const ⟨.primitive .long, ⟨"A", ⟨33, 1, 1, 34⟩⟩,
    .literal (.integer 1 .decimal) ⟨37, 1, 1, 38⟩ none⟩, ⟨22, 17, 1, 23⟩⟩]
  second := [⟨[], .const ⟨.primitive .long, ⟨"B", ⟨51, 1, 1, 52⟩⟩,
    .name ⟨false, ⟨"A", ⟨55, 1, 1, 56⟩⟩, [], ⟨55, 1, 1, 56⟩⟩ ⟨55, 1, 1, 56⟩ none⟩,
    ⟨40, 17, 1, 41⟩⟩]
  span := ⟨11, 49, 1, 12⟩
  again := ⟨"M", ⟨70, 1, 1, 71⟩⟩
  firstSpan := ⟨11, 31, 1, 12⟩
  secondSpan := ⟨63, 31, 1, 64⟩

end Idl
