import Idl.Proofs.Grammar.Definition
import Idl.Proofs.Rereading.Export

/-!
Definitions are read back from their chunks, with those in them one level down. Main statement:
`rereads_at`.
-/

set_option autoImplicit false

namespace Idl

theorem definitionChunks_eq (n : Nat) (ds : List Definition) :
    definitionChunks n ds = ds.flatMap (Definition.chunks n) := by
  induction ds with
  | nil => rw [definitionChunks, List.flatMap_nil]
  | cons d ds ih => rw [definitionChunks, ih, List.flatMap_cons]

theorem cost_definitionOutlines_le {ds : List Definition} {n : Nat} :
    (definitionOutlines ds).cost ≤ n ↔ ∀ d ∈ ds, d.outline.cost ≤ n := by
  induction ds with
  | nil => simp [definitionOutlines, Outline.cost]
  | cons d ds ih =>
    rw [List.forall_mem_cons, ← ih, definitionOutlines]
    exact Outline.cost_beside_le

theorem cost_exportOutlines_le {es : List (Export Definition)} {n : Nat} :
    (exportOutlines es).cost ≤ n ↔ ∀ e ∈ es, e.outline.cost ≤ n := by
  induction es with
  | nil => simp [exportOutlines, Outline.cost]
  | cons e es ih =>
    rw [List.forall_mem_cons, ← ih]
    cases e <;> rw [exportOutlines] <;> exact Outline.cost_beside_le

/-- The words of definitions that may also stand in bodies and annotations. -/
def innerWords : List Keyword :=
  [.struct, .union, .enum, .bitset, .bitmask, .typeDef, .native, .const, .exception, .typeId,
    .typePrefix]

/-- The words that definitions begin with. -/
def definitionWords : List Keyword :=
  innerWords ++ [.moduleKw, .interface, .valueType, .eventType, .component, .home, .abstractKw,
    .localKw, .custom]

namespace Grammar

variable {l : Level} {r : List Chunk} {n : Nat}

theorem front_qualified (q : Option Qualifier) {k : Keyword} (mem : k ∈ definitionWords) :
    ∃ w ∈ definitionWords, front (qualifierChunks q ++ .word k :: r) = .keyword w := by
  match q with
  | none => exact ⟨k, mem, rfl⟩
  | some .abstractType | some .localType | some .customType => exact ⟨_, by decide, rfl⟩

/-- A definition begins with a word or declares an annotation. -/
theorem front_kind (kind : DefinitionKind Definition) :
    (∃ w ∈ definitionWords, front (kindChunks n kind ++ r) = .keyword w) ∨
      ∃ d, kind = .annotationDecl d := by
  match kind with
  | .module _ | .valueBox _ | .component _ | .home _ | .struct _ | .union _ | .enum _ | .bitset _
  | .bitmask _ | .typedef _ | .native _ | .const _ | .exception _ | .typeId _ | .typePrefix _ =>
    exact .inl ⟨_, by simp [definitionWords, innerWords], rfl⟩
  | .forward ⟨kind, i, q⟩ =>
    rw [kindChunks, List.append_assoc]
    exact .inl (front_qualified q
      (by cases kind <;> simp [ForwardKind.word, definitionWords, innerWords]))
  | .interface ⟨i, q, bases, body⟩ =>
    rw [kindChunks, List.append_assoc]
    exact .inl (front_qualified q (by decide))
  | .value ⟨i, q, truncatable, bases, supports, body⟩
  | .event ⟨i, q, truncatable, bases, supports, body⟩ =>
    simp only [kindChunks, ValueType.headChunks, List.append_assoc]
    exact .inl (front_qualified q (by decide))
  | .annotationDecl d => exact .inr ⟨d, rfl⟩

theorem front_kind_ne (kind : DefinitionKind Definition) {m : Punct} (other : m ≠ .atSign) :
    front (kindChunks n kind ++ r) ≠ .punct m := by
  obtain ⟨w, -, word⟩ | ⟨d, rfl⟩ := front_kind (n := n) (r := r) kind
  · simp [word]
  · simpa [kindChunks] using other.symm

theorem front_innerKind {kind : DefinitionKind Definition} (formed : kindFormed kind)
    (inside : kind.isInner = true) :
    ∃ w ∈ innerWords, front (kindChunks n kind ++ r) = .keyword w := by
  match kind with
  | .struct _ | .union _ | .enum _ | .bitset _ | .bitmask _ | .typedef _ | .native _ | .const _
  | .exception _ | .typeId _ | .typePrefix _ => exact ⟨_, by simp [innerWords], rfl⟩
  | .forward ⟨.struct, i, q⟩ | .forward ⟨.union, i, q⟩ =>
    obtain rfl : q = none := by simpa [ForwardKind.qualifiers] using formed.qualifier
    exact ⟨_, by simp [ForwardKind.word, innerWords], rfl⟩

theorem bears_qualified (q : Option Qualifier) {k : Keyword} (other : front r ≠ .punct .leftBrace) :
    Bears (qualifierChunks q ++ .word k :: r) := by
  cases q with
  | none => exact bears_word other
  | some q => exact bears_word (by simp)

/-- Annotations may stand in front of a definition. -/
theorem bears_kind (kind : DefinitionKind Definition) : Bears (kindChunks n kind ++ r) := by
  match kind with
  | .module _ | .valueBox _ | .component _ | .home _ | .struct ⟨_, _, _, _⟩
  | .union ⟨_, ⟨_, _, _⟩, _, _⟩ | .enum _ | .bitset _ | .bitmask _ | .native _ | .exception _ =>
    exact bears_word (r := .blank :: .ident _ :: _) (by simp)
  | .typedef ⟨t, _⟩ | .const ⟨t, _, _⟩ =>
    simp only [kindChunks, List.cons_append, List.append_assoc]
    exact bears_word (front_type_ne_mark t (by decide))
  | .typeId ⟨target, _⟩ | .typePrefix ⟨target, _⟩ =>
    refine bears_word (r := .blank :: .name target :: _) ?_
    obtain kind | kind := front_name target _ <;> rw [front_gap, kind] <;> decide
  | .forward ⟨kind, i, q⟩ | .interface ⟨i, q, bases, body⟩ =>
    rw [kindChunks, List.append_assoc]
    exact bears_qualified q (by simp)
  | .value ⟨i, q, truncatable, bases, supports, body⟩
  | .event ⟨i, q, truncatable, bases, supports, body⟩ =>
    simp only [kindChunks, ValueType.headChunks, List.append_assoc]
    exact bears_qualified q (by simp)
  | .annotationDecl ⟨i, ms, ds⟩ => exact ⟨by simp [kindChunks], by simp [kindChunks, Chunk.kinds]⟩

theorem startsInner_of_spelled {kind : DefinitionKind Definition} (formed : kindFormed kind)
    (inside : kind.isInner = true) {s : Cursor}
    (spelled : Spelled (kindChunks n kind ++ r) s.rest) : startsInnerDefinition s = true := by
  obtain ⟨w, mem, word⟩ := front_innerKind (n := n) (r := r) formed inside
  rw [startsInnerDefinition, s.kind_of_spelled spelled, word]
  exact decide_eq_true mem

theorem not_startsInner {s : Cursor} {k : TokenKind} (kind : s.kind = k)
    (other : ∀ w ∈ innerWords, k ≠ .keyword w) : startsInnerDefinition s = false := by
  rw [startsInnerDefinition, kind]
  cases k with
  | keyword w => exact decide_eq_false fun mem => other w mem rfl
  | _ => rfl

theorem front_plainExport_ne_inner {e : Export Definition} (plain : ∀ d, e ≠ .definition d)
    (formed : e.Formed) : ∀ w ∈ innerWords, front (e.declChunks n ++ r) ≠ .keyword w := by
  have others : ∀ w ∈ exportWords, w ∉ innerWords := by decide
  intro w mem same
  obtain ⟨w', mem', word⟩ | ident | colons := front_plainExport (n := n) (r := r) plain formed
  · obtain rfl : w' = w := by simpa [word] using same
    exact others w' mem' mem
  · simp [ident] at same
  · simp [colons] at same

/-! Heads of bodies. -/

/-- Where the names in front of a body end. -/
def EndsHead (r : List Chunk) : Prop :=
  front r ∈ [TokenKind.punct .leftBrace, .keyword .supports, .keyword .manages,
    .keyword .primaryKey]

theorem EndsHead.front_ne (ends : EndsHead r) {k : TokenKind}
    (other : k ∉ [TokenKind.punct .leftBrace, .keyword .supports, .keyword .manages,
      .keyword .primaryKey]) : front r ≠ k :=
  fun same => other (same ▸ ends)

theorem rereads_supports {ns : List ScopedName} (ends : EndsHead r)
    (other : front r ≠ .keyword .supports) :
    Rereads (namesAfter .supports) (supportsChunks ns ++ r) r
      fun ms => ms.map ScopedName.unplaced = ns.map ScopedName.unplaced := by
  cases ns with
  | nil => exact rereads_eatKeyword_absent other (.pure rfl)
  | cons n ns =>
    exact .skip <| rereads_eatKeyword <| .skip <| rereads_scopedNames (List.cons_ne_nil n ns)
      (ends.front_ne (by simp)) (ends.front_ne (by simp))

theorem endsHead_supports {ns : List ScopedName} (ends : EndsHead r) :
    EndsHead (supportsChunks ns ++ r) := by
  cases ns with
  | nil => exact ends
  | cons n ns => exact List.mem_cons_of_mem _ (List.mem_cons_self ..)

theorem rereads_colonName {name : Option ScopedName} (ends : EndsHead r) :
    Rereads nameAfterColon? (colonChunks name ++ r) r
      fun m => m.map ScopedName.unplaced = name.map ScopedName.unplaced := by
  cases name with
  | none => exact rereads_eat_absent (ends.front_ne (by simp)) (.pure rfl)
  | some name =>
    exact .skip <| rereads_eat <| .skip <| (rereads_scopedName (ends.front_ne (by simp))).wrap
      fun m same => by simp [same]

theorem rereads_valueBases {truncatable : Bool} {ns : List ScopedName}
    (based : truncatable = true → ns ≠ []) (ends : EndsHead r) :
    Rereads valueBases
      (leadChunks (.blank :: .mark .colon :: .blank :: flagChunks .truncatable truncatable) ns ++ r)
      r fun p => p.1 = truncatable ∧ p.2.map ScopedName.unplaced = ns.map ScopedName.unplaced := by
  cases ns with
  | nil =>
    obtain rfl : truncatable = false := by simpa using based
    exact rereads_eat_absent (ends.front_ne (by simp)) (.pure ⟨rfl, rfl⟩)
  | cons n ns =>
    have names := rereads_scopedNames (List.cons_ne_nil n ns) (ends.front_ne (by simp))
      (ends.front_ne (by simp))
    cases truncatable with
    | true =>
      exact .skip <| rereads_eat <| .skip <| rereads_eatKeyword <| .skip <|
        names.wrap fun ms same => ⟨rfl, same⟩
    | false =>
      refine .skip <| rereads_eat <| .skip <| rereads_eatKeyword_absent ?_ <|
        names.wrap fun ms same => ⟨rfl, same⟩
      change front (.name n :: _) ≠ _
      obtain kind | kind := front_name n _ <;> rw [kind] <;> decide

theorem opensValueBody_of_spelled {truncatable : Bool} {bases supports : List ScopedName}
    {inside : List Chunk} {s : Cursor} (spelled : Spelled
      (leadChunks (.blank :: .mark .colon :: .blank :: flagChunks .truncatable truncatable) bases ++
        (supportsChunks supports ++ (braced n inside ++ r))) s.rest) :
    s.at? .semi = false ∧ opensValueBody s = true := by
  rw [opensValueBody, s.at?_of_spelled spelled, s.at?_of_spelled spelled, s.at?_of_spelled spelled,
    s.atKeyword_of_spelled spelled]
  cases bases <;> cases supports <;> simp [leadChunks, supportsChunks, braced]

theorem rereads_annotationMember {m : AnnotationMember} (formed : m.Formed)
    (enough : m.outline.cost ≤ l.left) :
    Rereads (annotationMember l) (m.chunks n ++ r) r fun m' => m'.bare = m.bare := by
  obtain ⟨typed, valued⟩ := Outline.cost_beside_le.mp enough
  simp only [AnnotationMember.chunks, List.append_assoc, List.cons_append, List.nil_append]
  refine .skip ?_
  refine (rereads_typeSpec m.type n _ formed.type typed endsType_ident).bind fun t same => .skip ?_
  refine rereads_ident.bind fun name same' => ?_
  have ended {e : Option ConstExpr}
      (same'' : e.map ConstExpr.unplaced = m.default.map ConstExpr.unplaced) :
      Rereads (do discard (expect .semi); return (⟨t, name, e⟩ : AnnotationMember))
        (.mark .semi :: .newline :: r) r fun m' => m'.bare = m.bare :=
    .skipBehind ['\n'] <| rereads_mark <| .pure (by
      simp only [AnnotationMember.bare, same, same', same''])
  cases default : m.default with
  | none =>
    exact rereads_eatKeyword_absent (by simp [defaultChunks]) <|
      Rereads.bind (P := (· = none)) (.pure rfl) fun e none => ended (by rw [none, default])
  | some e =>
    have value := rereads_constExpr (l := l) (r := .mark .semi :: .newline :: r)
      (formed.default e default) (cost_boundOutline_le.mp valued e default)
      ⟨_, rfl, .inl (by decide)⟩
    exact .skip <| rereads_eatKeyword <| .skip <|
      (Rereads.map (R := fun o => o.map ConstExpr.unplaced = some e.unplaced)
        (value.imp fun e' same => by simp [same])).bind
          fun o same => ended (by rw [same, default, Option.map_some])

/-! Readers of definitions and exports one level down. -/

/-- The readers read back what needs no more than so many levels. -/
structure Inner.Rereads (inner : Inner) (left : Nat) : Prop where
  definition : ∀ (d : Definition) (n : Nat) (r : List Chunk), d.Formed → d.outline.cost ≤ left →
    Grammar.Rereads inner.definition (d.chunks n ++ r) r fun d' => d'.bare = d.bare
  exportItem : ∀ (e : Export Definition) (n : Nat) (r : List Chunk), e.Formed →
    e.outline.cost ≤ left →
      Grammar.Rereads inner.exportItem (e.chunks n ++ r) r fun e' => e'.bare = e.bare

theorem front_definition (d : Definition) : front (d.chunks n ++ r) ≠ .punct .rightBrace := by
  obtain ⟨as, kind, span⟩ := d
  rw [Definition.chunks, List.append_assoc, List.cons_append, List.append_assoc]
  exact front_lineUses_ne (by simp) (front_kind_ne kind (by simp))

theorem kinds_definition (d : Definition) : kinds (d.chunks n) ≠ [] := by
  obtain ⟨as, kind, span⟩ := d
  simp [Definition.chunks, Chunk.kinds]

theorem front_export {e : Export Definition} (formed : e.Formed) :
    front (e.chunks n ++ r) ≠ .punct .rightBrace := by
  rw [Export.chunks, List.append_assoc, List.cons_append, List.append_assoc]
  refine front_lineUses_ne (by simp) ?_
  by_cases defines : ∃ d, e = .definition d
  · obtain ⟨d, rfl⟩ := defines
    exact front_kind_ne d.kind (by simp)
  · exact front_plainExport_ne (fun d same => defines ⟨d, same⟩) formed (by simp)

section

variable {inner : Inner} (inners : inner.Rereads l.left)

include inners

theorem rereads_definitions {ds : List Definition} (formed : ∀ d ∈ ds, d.Formed)
    (enough : (definitionOutlines ds).cost ≤ l.left) (brace : front r = .punct .rightBrace) :
    Rereads (bodyItems inner.definition) (definitionChunks n ds ++ r) r
      fun ds' => ds'.map Definition.bare = ds.map Definition.bare := by
  have enough := cost_definitionOutlines_le.mp enough
  rw [definitionChunks_eq]
  exact rereads_bodyItems (fun d mem => .of_body (kinds_definition d) (fun _ => front_definition d)
    fun ds => inners.definition d n ds (formed d mem) (enough d mem)) brace

theorem rereads_exportBody {es : List (Export Definition)} (formed : ∀ e ∈ es, e.Formed)
    (enough : (exportOutlines es).cost ≤ l.left) :
    Rereads (exportBody inner) (braced n (exportChunks (n + 4) es) ++ r) r
      fun es' => es'.map Export.bare = es.map Export.bare := by
  have enough := cost_exportOutlines_le.mp enough
  simp only [braced, exportChunks_eq, List.append_assoc, List.cons_append, List.nil_append]
  refine .skip <| rereads_mark <| .skip ?_
  refine (rereads_bodyItems (g := Export.bare) (fun e mem => .of_body ?_ (fun ds => ?_) fun ds =>
    inners.exportItem e (n + 4) ds (formed e mem) (enough e mem)) rfl).bind fun es' same =>
      .skip <| rereads_mark (.pure same)
  · simp [Export.chunks, Chunk.kinds]
  · exact front_export (formed e mem)

theorem rereads_moduleDecl {i : Ident} {ds : List Definition} (formed : ∀ d ∈ ds, d.Formed)
    (enough : (definitionOutlines ds).cost ≤ l.left) :
    Rereads (moduleDecl inner)
      (.word .moduleKw :: .blank :: .ident i :: (braced n (definitionChunks (n + 4) ds) ++ r)) r
      fun m => bareKind (.module m) = bareKind (.module ⟨i, ds⟩) := by
  refine rereads_word <| .skip <| rereads_ident.bind fun name same => ?_
  simp only [braced, List.append_assoc, List.cons_append, List.nil_append]
  refine .skip <| rereads_mark <| .skip <|
    (rereads_definitions inners formed enough rfl).bind fun ds' same' => .skip <|
    rereads_mark (.pure ?_)
  simp only [bareKind, bareDefinitions_eq, same, same']

theorem rereads_interface {i : Ident} {q : Option Qualifier} {bases : List ScopedName}
    {es : List (Export Definition)} (formed : ∀ e ∈ es, e.Formed)
    (enough : (exportOutlines es).cost ≤ l.left) :
    Rereads (interface inner q)
      (.word .interface :: .blank :: .ident i :: (leadChunks [.blank, .mark .colon, .blank] bases ++
        (braced n (exportChunks (n + 4) es) ++ r))) r
      fun kind => bareKind kind = bareKind (.interface ⟨i, q, bases, es⟩) := by
  refine rereads_word <| .skip <| rereads_ident.bind fun name same => ?_
  have body (bases' : List ScopedName)
      (same' : bases'.map ScopedName.unplaced = bases.map ScopedName.unplaced) :
      Rereads (do return .interface ⟨name, q, bases', ← exportBody inner⟩)
        (braced n (exportChunks (n + 4) es) ++ r) r
        fun kind => bareKind kind = bareKind (.interface ⟨i, q, bases, es⟩) :=
    (rereads_exportBody inners formed enough).wrap fun es' same'' => by
      simp only [bareKind, bareExports_eq, same, same', same'']
  cases bases with
  | nil =>
    exact rereads_testMark_absent (by simp [leadChunks, braced]) <|
      rereads_eat_absent (by simp [leadChunks, braced]) <|
      Rereads.bind (P := (· = [])) (.pure rfl) fun bases' none => body bases' (by rw [none])
  | cons base bases =>
    have names := rereads_scopedNames (r := braced n (exportChunks (n + 4) es) ++ r)
      (List.cons_ne_nil base bases) (by simp [braced]) (by simp [braced])
    exact rereads_testMark_absent (by simp [leadChunks]) <| .skip <| rereads_eat <| .skip <|
      names.bind body

/-- What stands behind the name of a value or event type. -/
theorem rereads_valueBody {i name : Ident} {q : Option Qualifier} {truncatable : Bool}
    {bases supports : List ScopedName} {es : List (Export Definition)}
    (same : name.unplaced = i.unplaced) (based : truncatable = true → bases ≠ [])
    (formed : ∀ e ∈ es, e.Formed) (enough : (exportOutlines es).cost ≤ l.left) :
    Rereads (valueBody inner name q)
      (leadChunks (.blank :: .mark .colon :: .blank :: flagChunks .truncatable truncatable) bases ++
        (supportsChunks supports ++ (braced n (exportChunks (n + 4) es) ++ r))) r
      fun v => bareKind (.value v) = bareKind (.value ⟨i, q, truncatable, bases, supports, es⟩) ∧
        bareKind (.event v) = bareKind (.event ⟨i, q, truncatable, bases, supports, es⟩) := by
  have ends : EndsHead (braced n (exportChunks (n + 4) es) ++ r) := List.mem_cons_self ..
  refine (rereads_valueBases based (endsHead_supports ends)).bind
    fun ⟨truncatable', bases'⟩ ⟨same_truncatable, same_bases⟩ => ?_
  dsimp only at same_truncatable same_bases
  subst same_truncatable
  refine (rereads_supports ends (by simp [braced])).bind fun supports' same_supports => ?_
  refine (rereads_exportBody inners formed enough).wrap fun es' same_exports => ?_
  simp only [bareKind, bareExports_eq, same, same_bases, same_supports, same_exports, and_self]

theorem rereads_valueType {i : Ident} {q : Option Qualifier} {truncatable : Bool}
    {bases supports : List ScopedName} {es : List (Export Definition)}
    (based : truncatable = true → bases ≠ []) (formed : ∀ e ∈ es, e.Formed)
    (enough : (exportOutlines es).cost ≤ l.left) :
    Rereads (valueType l inner q)
      (.word .valueType :: .blank :: .ident i ::
        (leadChunks (.blank :: .mark .colon :: .blank :: flagChunks .truncatable truncatable)
            bases ++
          (supportsChunks supports ++ (braced n (exportChunks (n + 4) es) ++ r)))) r
      fun kind => bareKind kind =
        bareKind (.value ⟨i, q, truncatable, bases, supports, es⟩) := by
  refine rereads_discardBump <| .skip <| rereads_ident.bind fun name same => ?_
  refine rereads_test (b := false) (fun s spelled => (opensValueBody_of_spelled spelled).1) ?_
  refine rereads_test (b := true) (fun s spelled => (opensValueBody_of_spelled spelled).2) ?_
  exact (rereads_valueBody inners same based formed enough).wrap fun v same => same.1

theorem rereads_eventType {i : Ident} {q : Option Qualifier} {truncatable : Bool}
    {bases supports : List ScopedName} {es : List (Export Definition)}
    (based : truncatable = true → bases ≠ []) (formed : ∀ e ∈ es, e.Formed)
    (enough : (exportOutlines es).cost ≤ l.left) :
    Rereads (eventType inner q)
      (.word .eventType :: .blank :: .ident i ::
        (leadChunks (.blank :: .mark .colon :: .blank :: flagChunks .truncatable truncatable)
            bases ++
          (supportsChunks supports ++ (braced n (exportChunks (n + 4) es) ++ r)))) r
      fun kind => bareKind kind =
        bareKind (.event ⟨i, q, truncatable, bases, supports, es⟩) := by
  refine rereads_discardBump <| .skip <| rereads_ident.bind fun name same => ?_
  refine rereads_test (b := false) (fun s spelled => (opensValueBody_of_spelled spelled).1) ?_
  refine rereads_test (b := true) (fun s spelled => (opensValueBody_of_spelled spelled).2) ?_
  exact (rereads_valueBody inners same based formed enough).wrap fun v same => same.2

theorem rereads_component {i : Ident} {base : Option ScopedName} {supports : List ScopedName}
    {es : List (Export Definition)} (formed : ∀ e ∈ es, e.Formed)
    (enough : (exportOutlines es).cost ≤ l.left) :
    Rereads (component inner)
      (.word .component :: .blank :: .ident i :: (colonChunks base ++ (supportsChunks supports ++
        (braced n (exportChunks (n + 4) es) ++ r)))) r
      fun kind => bareKind kind = bareKind (.component ⟨i, base, supports, es⟩) := by
  have ends : EndsHead (braced n (exportChunks (n + 4) es) ++ r) := List.mem_cons_self ..
  refine rereads_word <| .skip <| rereads_ident.bind fun name same => ?_
  refine rereads_testMark_absent ?_ ?_
  · cases base <;> cases supports <;>
      simp [colonChunks, optionalChunks, supportsChunks, leadChunks, braced]
  refine (rereads_colonName (endsHead_supports ends)).bind fun base' same_base => ?_
  refine (rereads_supports ends (by simp [braced])).bind fun supports' same_supports => ?_
  refine (rereads_exportBody inners formed enough).wrap fun es' same_exports => ?_
  simp only [bareKind, bareExports_eq, same, same_base, same_supports, same_exports]

theorem rereads_home {i : Ident} {base key : Option ScopedName} {supports : List ScopedName}
    {manages : ScopedName} {es : List (Export Definition)} (formed : ∀ e ∈ es, e.Formed)
    (enough : (exportOutlines es).cost ≤ l.left) :
    Rereads (home inner)
      (.word .home :: .blank :: .ident i :: (colonChunks base ++ (supportsChunks supports ++
        .blank :: .word .manages :: .blank :: .name manages ::
          (optionalChunks [.blank, .word .primaryKey, .blank] key ++
            (braced n (exportChunks (n + 4) es) ++ r))))) r
      fun kind => bareKind kind = bareKind (.home ⟨i, base, supports, manages, key, es⟩) := by
  have ends {r : List Chunk} : EndsHead (.blank :: .word .manages :: r) := by simp [EndsHead]
  refine rereads_word <| .skip <| rereads_ident.bind fun name same => ?_
  refine (rereads_colonName (endsHead_supports ends)).bind fun base' same_base => ?_
  refine (rereads_supports ends (by simp)).bind fun supports' same_supports => .skip ?_
  have body {manages' : ScopedName} {key' : Option ScopedName}
      (same_manages : manages'.unplaced = manages.unplaced)
      (same_key : key'.map ScopedName.unplaced = key.map ScopedName.unplaced) :
      Rereads (do return .home ⟨name, base', supports', manages', key', ← exportBody inner⟩)
        (braced n (exportChunks (n + 4) es) ++ r) r
        fun kind => bareKind kind = bareKind (.home ⟨i, base, supports, manages, key, es⟩) :=
    (rereads_exportBody inners formed enough).wrap fun es' same_exports => by
      simp only [bareKind, bareExports_eq, same, same_base, same_supports, same_manages, same_key,
        same_exports]
  refine rereads_word <| .skip ?_
  cases key with
  | none =>
    refine (rereads_scopedName (by simp [optionalChunks, braced])).bind fun manages' same' => ?_
    exact rereads_eatKeyword_absent (by simp [optionalChunks, braced]) <|
      Rereads.bind (P := (· = none)) (.pure rfl) fun key' none => body same' (by rw [none])
  | some key =>
    refine (rereads_scopedName (by simp [optionalChunks])).bind fun manages' same' => .skip ?_
    refine rereads_eatKeyword <| .skip ?_
    exact (Rereads.map (R := fun k => k.map ScopedName.unplaced = some key.unplaced)
      ((rereads_scopedName (by simp [braced])).imp fun m same => by simp [same])).bind
        fun key' same'' => body same' same''

/-! Declarations of annotations. -/

omit inners in
theorem atAnnotationDecl_of_spelled {i : Ident} {inside : List Chunk} {s : Cursor}
    (spelled : Spelled (.mark .atSign :: .ident ⟨"annotation", .empty⟩ :: .blank :: .ident i ::
      .blank :: .mark .leftBrace :: inside) s.rest) : atAnnotationDecl s = true := by
  have lexeme : (s.nth 1).lexeme = "annotation" := by
    obtain ⟨_, _, rest, mark, _, _, rfl, word, -⟩ := spelled
    obtain ⟨t, rfl, -⟩ := single_mark _ _ mark
    cases word with
    | ident names => simpa [Cursor.nth, rest] using names.lexeme
  rw [atAnnotationDecl, s.at?_of_spelled spelled, s.nth_kind_of_spelled spelled,
    s.nth_kind_of_spelled spelled, s.nth_kind_of_spelled spelled, lexeme]
  rfl

/-- The items of an annotation: its members, and the definitions in it. -/
def itemChunks (n : Nat) : AnnotationMember ⊕ Definition → List Chunk :=
  Sum.elim (AnnotationMember.chunks n) (Definition.chunks n)

def bareItem : AnnotationMember ⊕ Definition → AnnotationMember ⊕ Definition :=
  Sum.map AnnotationMember.bare Definition.bare

omit inners in
theorem getLeft_bareItem (items : List (AnnotationMember ⊕ Definition)) :
    (items.map bareItem).filterMap Sum.getLeft? =
      (items.filterMap Sum.getLeft?).map AnnotationMember.bare := by
  rw [List.filterMap_map, List.map_filterMap]
  exact congrArg (List.filterMap · items) (funext fun item => by cases item <;> rfl)

omit inners in
theorem getRight_bareItem (items : List (AnnotationMember ⊕ Definition)) :
    (items.map bareItem).filterMap Sum.getRight? =
      (items.filterMap Sum.getRight?).map Definition.bare := by
  rw [List.filterMap_map, List.map_filterMap]
  exact congrArg (List.filterMap · items) (funext fun item => by cases item <;> rfl)

omit inners in
theorem kindFormed_of_formed {d : Definition} (formed : d.Formed) : kindFormed d.kind := by
  obtain ⟨as, kind, span⟩ := d
  exact formed.2

omit inners in
/-- Without annotations in front, a definition begins with its word. -/
theorem chunks_of_plain {d : Definition} (none : d.annotations = []) :
    d.chunks n = .indent n :: (kindChunks n d.kind ++ [.mark .semi, .newline]) := by
  obtain ⟨as, kind, span⟩ := d
  obtain rfl : as = [] := none
  rfl

omit inners in
/-- A member of an annotation begins with no word of a definition. -/
theorem startsInner_of_member {m : AnnotationMember} (plain : m.type.isConstructed = false)
    {s : Cursor} (spelled : Spelled (m.chunks n ++ r) s.rest) :
    startsInnerDefinition s = false := by
  refine not_startsInner (s.kind_of_spelled spelled) fun w mem => ?_
  have others : ∀ w ∈ innerWords, w ∉ typeWords false := by decide
  simp only [AnnotationMember.chunks, List.append_assoc, List.cons_append]
  exact front_type_ne_word m.type (plain ▸ others w mem)

theorem rereads_annotationItem {item : AnnotationMember ⊕ Definition} (formed : ItemFormed item)
    (enough : (item.elim AnnotationMember.outline Definition.outline).cost ≤ l.left) :
    Rereads (annotationItem l inner) (itemChunks n item ++ r) r
      fun item' => bareItem item' = bareItem item := by
  cases item with
  | inl m =>
    refine rereads_test (b := false)
      (fun s spelled => startsInner_of_member formed.plain spelled) ?_
    exact (rereads_annotationMember formed enough).wrap fun m' same => congrArg Sum.inl same
  | inr d =>
    obtain ⟨formed, none, inside⟩ := formed
    refine rereads_test (b := true) (fun s spelled => ?_) ?_
    · rw [itemChunks, Sum.elim_inr, chunks_of_plain none, List.cons_append,
        List.append_assoc] at spelled
      exact startsInner_of_spelled (kindFormed_of_formed formed) inside (spelled_gap.mp spelled)
    · exact (inners.definition d n r formed enough).wrap fun d' same => congrArg Sum.inr same

/-- An annotation is declared with its members in front of its definitions. -/
theorem rereads_annotationDecl {i : Ident} {ms : List AnnotationMember} {ds : List Definition}
    (formed : kindFormed (.annotationDecl ⟨i, ms, ds⟩))
    (enough : (kindOutline (.annotationDecl ⟨i, ms, ds⟩)).cost ≤ l.left) :
    Rereads (annotationDecl l inner)
      (kindChunks n (.annotationDecl ⟨i, ms, ds⟩) ++ r) r
      fun d => bareKind (.annotationDecl d) = bareKind (.annotationDecl ⟨i, ms, ds⟩) := by
  obtain ⟨⟨-, members, inside⟩, all⟩ := formed
  obtain ⟨enough, enough'⟩ := Outline.cost_beside_le.mp enough
  have enough := Outline.cost_all_le.mp enough
  have enough' := cost_definitionOutlines_le.mp enough'
  rw [allFormed_iff] at all
  -- members and definitions are read as items of one list
  have items : ms.flatMap (AnnotationMember.chunks (n + 4)) ++ definitionChunks (n + 4) ds =
      (ms.map Sum.inl ++ ds.map Sum.inr).flatMap (itemChunks (n + 4)) := by
    rw [List.flatMap_append, List.flatMap_map, List.flatMap_map, definitionChunks_eq]
    rfl
  simp only [kindChunks, braced, items, List.append_assoc, List.cons_append, List.nil_append]
  refine rereads_mark <| rereads_ident.discard.bind fun _ _ => .skip <|
    rereads_ident.bind fun name same => .skip <| rereads_mark <| .skip ?_
  refine (rereads_body (g := bareItem) (fun item mem => ?_) rfl).bind fun is same' => .skip <|
    rereads_mark <| .pure ?_
  · have each : ∀ item ∈ ms.map Sum.inl ++ ds.map Sum.inr, ItemFormed item ∧
        (item.elim AnnotationMember.outline Definition.outline).cost ≤ l.left := by
      simp only [List.forall_mem_append, List.forall_mem_map]
      exact ⟨fun m mem => ⟨members m mem, enough m mem⟩,
        fun d mem => ⟨⟨all d mem, inside d mem⟩, enough' d mem⟩⟩
    obtain ⟨formed, enough⟩ := each item mem
    refine .of_body ?_ (fun cs => ?_) fun cs => rereads_annotationItem inners formed enough
    · cases item with
      | inl m => simp [itemChunks, AnnotationMember.chunks, Chunk.kinds]
      | inr d => exact kinds_definition d
    · cases item with
      | inl m =>
        simp only [itemChunks, Sum.elim_inl, AnnotationMember.chunks, List.append_assoc,
          List.cons_append]
        exact front_type_ne_mark m.type (by decide)
      | inr d => exact front_definition d
  · have members := congrArg (List.filterMap Sum.getLeft?) same'
    have definitions := congrArg (List.filterMap Sum.getRight?) same'
    rw [getLeft_bareItem, getLeft_bareItem] at members
    rw [getRight_bareItem, getRight_bareItem] at definitions
    simp only [bareKind, bareDefinitions_eq, same, members, definitions]
    simp [Function.comp_def]

/-! Kinds of definitions. -/

section

variable {Q : DefinitionKind Definition → Prop} {ds : List Chunk} {q : Option Qualifier}

omit inners in
/-- A qualifier leads to the reader of what it stands in front of. -/
theorem rereads_interfaceKind (legal : q ∈ ForwardKind.interface.qualifiers)
    (reads : Rereads (interface inner q) (.word .interface :: r) ds Q) :
    Rereads (definitionKind l inner) (qualifierChunks q ++ .word .interface :: r) ds Q := by
  match q with
  | none => exact rereads_kind reads
  | some .abstractType | some .localType =>
    exact rereads_kind (rereads_discardBump (.skip (rereads_kind reads)))
  | some .customType => simp [ForwardKind.qualifiers] at legal

omit inners in
theorem rereads_valueKind (legal : q ∈ ForwardKind.value.qualifiers)
    (reads : Rereads (valueType l inner q) (.word .valueType :: r) ds Q) :
    Rereads (definitionKind l inner) (qualifierChunks q ++ .word .valueType :: r) ds Q := by
  match q with
  | none => exact rereads_kind reads
  | some .abstractType | some .customType =>
    exact rereads_kind (rereads_discardBump (.skip (rereads_kind reads)))
  | some .localType => simp [ForwardKind.qualifiers] at legal

omit inners in
theorem rereads_eventKind (legal : q ∈ ForwardKind.value.qualifiers)
    (reads : Rereads (eventType inner q) (.word .eventType :: r) ds Q) :
    Rereads (definitionKind l inner) (qualifierChunks q ++ .word .eventType :: r) ds Q := by
  match q with
  | none => exact rereads_kind reads
  | some .abstractType | some .customType =>
    exact rereads_kind (rereads_discardBump (.skip (rereads_kind reads)))
  | some .localType => simp [ForwardKind.qualifiers] at legal

end

omit inners in
/-- A name that is defined later. -/
theorem rereads_forward {d : ForwardDecl} (formed : d.Formed) :
    Rereads (definitionKind l inner) (kindChunks n (.forward d) ++ .mark .semi :: r)
      (.mark .semi :: r) fun kind => bareKind kind = bareKind (.forward d) := by
  obtain ⟨kind, i, q⟩ := d
  have qualifier := formed.qualifier
  have forward (kind : ForwardKind) {name : Ident} (same : name.unplaced = i.unplaced) :
      bareKind (.forward ⟨kind, name, q⟩) = bareKind (.forward ⟨kind, i, q⟩) := by
    simp only [bareKind, ForwardDecl.bare, same]
  simp only [kindChunks, List.append_assoc, List.cons_append, List.nil_append]
  cases kind with
  | struct | union =>
    obtain rfl : q = none := by simpa [ForwardKind.qualifiers] using qualifier
    exact rereads_kind <| rereads_expectKeyword.bind fun start _ => .skip <|
      rereads_ident.bind fun name same => rereads_testMark (.pure (forward _ same))
  | component =>
    obtain rfl : q = none := by simpa [ForwardKind.qualifiers] using qualifier
    exact rereads_kind <| rereads_word <| .skip <|
      rereads_ident.bind fun name same => rereads_testMark (.pure (forward _ same))
  | interface =>
    exact rereads_interfaceKind qualifier <| rereads_word <| .skip <|
      rereads_ident.bind fun name same => rereads_testMark (.pure (forward _ same))
  | value =>
    exact rereads_valueKind qualifier <| rereads_discardBump <| .skip <|
      rereads_ident.bind fun name same => rereads_testMark (.pure (forward _ same))
  | event =>
    exact rereads_eventKind qualifier <| rereads_discardBump <| .skip <|
      rereads_ident.bind fun name same => rereads_testMark (.pure (forward _ same))

omit inners in
theorem rereads_repositoryDecl {w : Keyword} {d : RepositoryDecl} :
    Rereads repositoryDecl
      (.word w :: .blank :: .name d.target :: .blank :: .text d.text :: .mark .semi :: r)
      (.mark .semi :: r) fun d' => d'.bare = d.bare := by
  refine rereads_discardBump <| .skip <| (rereads_scopedName (by simp)).bind fun target same => ?_
  refine .skip <| (rereads_stringLiteral (by simp)).wrap fun text same' => ?_
  simp only [RepositoryDecl.bare, same, same']

omit inners in
/-- A value type without a body is a box. -/
theorem rereads_valueBox {d : ValueBox} (formed : d.Formed)
    (enough : d.type.outline.cost ≤ l.left) :
    Rereads (valueType l inner none) (kindChunks n (.valueBox d) ++ .mark .semi :: r)
      (.mark .semi :: r) fun kind => bareKind kind = bareKind (.valueBox d) := by
  have ends : EndsType (.mark .semi :: r) := by simp [EndsType]
  have mark {m : Punct} (other : m ≠ .colonColon) :
      front (d.type.chunks n ++ .mark .semi :: r) ≠ .punct m := front_type_ne_mark d.type other
  have word : front (d.type.chunks n ++ .mark .semi :: r) ≠ .keyword .supports :=
    front_type_ne_word d.type (by cases d.type.isConstructed <;> decide)
  simp only [kindChunks, List.cons_append]
  refine rereads_discardBump <| .skip <| rereads_ident.bind fun name same => .skip ?_
  refine rereads_testMark_absent (mark (by decide)) <| rereads_test (b := false) ?_ ?_
  · intro s spelled
    rw [opensValueBody, s.at?_of_spelled spelled, s.at?_of_spelled spelled,
      s.atKeyword_of_spelled spelled]
    simp [mark, word]
  · refine (rereads_typeSpec d.type n _ formed.type enough ends).wrap fun t same' => ?_
    simp only [bareKind, ValueBox.bare, same, same']

/-- A definition is read back by what its first words lead to. -/
theorem rereads_definitionKind {kind : DefinitionKind Definition} (formed : kindFormed kind)
    (enough : (kindOutline kind).cost ≤ l.left) :
    Rereads (definitionKind l inner) (kindChunks n kind ++ .mark .semi :: r) (.mark .semi :: r)
      fun kind' => bareKind kind' = bareKind kind := by
  match kind with
  | .module ⟨i, ds⟩ =>
    simp only [kindChunks, List.cons_append]
    exact rereads_kind <| (rereads_moduleDecl inners ((allFormed_iff ds).mp formed.2) enough).wrap
      fun m same => same
  | .struct ⟨name, base, fields, span⟩ =>
    obtain ⟨-, based, formed⟩ := formed
    simp only [kindChunks, TypeSpec.chunks, List.append_assoc, List.cons_append]
    refine rereads_kind <| rereads_expectKeyword.bind fun start _ => .skip <|
      rereads_ident.bind fun name' same => rereads_testMark_absent ?_ ?_
    · cases base <;> simp [baseChunks, braced]
    · refine (rereads_structBody (t := ⟨name, base, fields, span⟩) rereads_typeSpec same based
        ((membersFormed_iff _).mp formed) enough).wrap fun t same => ?_
      simp only [bareKind, same]
  | .union ⟨name, ⟨as, type, span⟩, cases, span'⟩ =>
    obtain ⟨-, uses, formed, some, all⟩ := formed
    simp only [kindChunks, TypeSpec.chunks, List.append_assoc, List.cons_append]
    refine rereads_kind <| rereads_expectKeyword.bind fun start _ => .skip <|
      rereads_ident.bind fun name' same => rereads_testMark_absent (by simp) ?_
    refine (rereads_unionBody (t := ⟨name, ⟨as, type, span⟩, cases, span'⟩) rereads_typeSpec same
      uses formed some ((casesFormed_iff _).mp all) enough).wrap fun t same => ?_
    simp only [bareKind, same]
  | .enum t =>
    exact rereads_kind <| (rereads_enumType formed enough).wrap fun t' same => by
      simp only [bareKind, same]
  | .bitset t =>
    exact rereads_kind <| (rereads_bitsetType formed enough).wrap fun t' same => by
      simp only [bareKind, same]
  | .bitmask t =>
    exact rereads_kind <| (rereads_bitmaskType formed enough).wrap fun t' same => by
      simp only [bareKind, same]
  | .typedef ⟨type, names⟩ =>
    obtain ⟨typed, declared⟩ := Outline.cost_beside_le.mp enough
    simp only [kindChunks, List.append_assoc, List.cons_append]
    refine rereads_kind <| Rereads.wrap (P := fun d => d.bare = (⟨type, names⟩ : Typedef).bare)
      (rereads_word <| .skip ?_) fun d same => by simp only [bareKind, same]
    refine (rereads_typeSpec type n _ formed.type typed (endsType_declarators formed.nonempty)).bind
      fun t same => .skip ?_
    refine (rereads_declarators formed.nonempty formed.declarators declared (by simp)
      (by simp)).wrap fun ds same' => ?_
    simp only [Typedef.bare, same, same']
  | .const ⟨type, name, value⟩ =>
    obtain ⟨typed, valued⟩ := Outline.cost_beside_le.mp enough
    simp only [kindChunks, List.append_assoc, List.cons_append]
    refine rereads_kind <| Rereads.wrap
      (P := fun d => d.bare = (⟨type, name, value⟩ : ConstDecl).bare)
      (rereads_word <| .skip ?_) fun d same => by simp only [bareKind, same]
    refine (rereads_typeSpec type n _ formed.type typed endsType_ident).bind fun t same => .skip ?_
    refine rereads_ident.bind fun name' same' => .skip <| rereads_mark <| .skip ?_
    refine (rereads_constExpr formed.value valued ⟨_, rfl, .inl (by decide)⟩).wrap
      fun e same'' => ?_
    simp only [ConstDecl.bare, same, same', same'']
  | .exception ⟨name, fields⟩ =>
    simp only [kindChunks, braced, List.append_assoc, List.cons_append, List.nil_append]
    refine rereads_kind <| Rereads.wrap
      (P := fun d => d.bare = (⟨name, fields⟩ : ExceptionDecl).bare)
      (rereads_word <| .skip ?_) fun d same => by simp only [bareKind, same]
    refine rereads_ident.bind fun name' same => .skip <| rereads_mark <| .skip ?_
    refine (rereads_members rereads_typeSpec formed.members enough rfl).bind fun ms same' =>
      .skip <| rereads_mark <| .pure ?_
    simp only [ExceptionDecl.bare, same, same']
  | .native i =>
    exact rereads_kind <| rereads_discardBump <| .skip <| rereads_ident.wrap fun i' same => by
      simp only [bareKind, same]
  | .forward d => exact rereads_forward formed
  | .interface ⟨i, q, bases, body⟩ =>
    obtain ⟨-, legal, -, formed⟩ := formed
    simp only [kindChunks, List.append_assoc, List.cons_append]
    exact rereads_interfaceKind legal
      (rereads_interface inners ((exportsFormed_iff _).mp formed) enough)
  | .value ⟨i, q, truncatable, bases, supports, body⟩ =>
    obtain ⟨headed, formed⟩ := formed
    simp only [kindChunks, ValueType.headChunks, List.append_assoc, List.cons_append]
    exact rereads_valueKind headed.qualifier
      (rereads_valueType inners headed.truncatable ((exportsFormed_iff _).mp formed) enough)
  | .event ⟨i, q, truncatable, bases, supports, body⟩ =>
    obtain ⟨headed, formed⟩ := formed
    simp only [kindChunks, ValueType.headChunks, List.append_assoc, List.cons_append]
    exact rereads_eventKind headed.qualifier
      (rereads_eventType inners headed.truncatable ((exportsFormed_iff _).mp formed) enough)
  | .valueBox d => exact rereads_kind (rereads_valueBox formed enough)
  | .component ⟨i, b, supports, body⟩ =>
    simp only [kindChunks, List.append_assoc, List.cons_append]
    exact rereads_kind (rereads_component inners ((exportsFormed_iff _).mp formed.2) enough)
  | .home ⟨i, b, supports, manages, key, body⟩ =>
    simp only [kindChunks, List.append_assoc, List.cons_append]
    exact rereads_kind (rereads_home inners ((exportsFormed_iff _).mp formed.2) enough)
  | .typeId d | .typePrefix d =>
    exact rereads_kind <| rereads_repositoryDecl.wrap fun d' same => by simp only [bareKind, same]
  | .annotationDecl ⟨i, ms, ds⟩ =>
    have decl := rereads_annotationDecl (n := n) (r := .mark .semi :: r) inners formed enough
    exact rereads_kind <| rereads_test (b := true) (fun s spelled => by
      simp only [kindChunks, braced, List.cons_append] at spelled
      exact atAnnotationDecl_of_spelled spelled) (decl.wrap fun d same => same)

omit inners in
/-- Annotations in front of a definition end there. -/
theorem stops_at_kind (kind : DefinitionKind Definition) (s : Cursor)
    (spelled : Spelled (kindChunks n kind ++ r) s.rest) :
    (!s.at? .atSign || atAnnotationDecl s) = true := by
  obtain ⟨w, -, word⟩ | ⟨d, rfl⟩ := front_kind (n := n) (r := r) kind
  · exact stops_of_front (by simp [word]) s spelled
  · simp only [kindChunks, braced, List.cons_append] at spelled
    rw [atAnnotationDecl_of_spelled spelled, Bool.or_true]

theorem rereads_definitionWith {d : Definition} (formed : d.Formed)
    (enough : d.outline.cost ≤ l.left + 1) :
    Rereads (definitionWith l inner) (d.chunks n ++ r) r fun d' => d'.bare = d.bare := by
  obtain ⟨as, kind, span⟩ := d
  obtain ⟨annotated, formed⟩ := formed
  obtain ⟨uses, inside⟩ := Outline.cost_beside_le.mp (Nat.le_of_succ_le_succ enough)
  simp only [Definition.chunks, List.append_assoc, List.cons_append, List.nil_append]
  refine .skipBehind ['\n'] <| rereads_here fun start => ?_
  refine (rereads_lineUses annotated uses (bears_kind kind) (stops_at_kind kind)).bind
    fun as' same => ?_
  refine (rereads_definitionKind inners formed inside).bind fun kind' same' => ?_
  refine rereads_mark <| rereads_spanFrom fun span => .pure ?_
  simp only [Definition.bare, same, same']

theorem rereads_exportWith {e : Export Definition} (formed : e.Formed)
    (enough : e.outline.cost ≤ l.left + 1) :
    Rereads (exportWith l (definitionKind l inner)) (e.chunks n ++ r) r
      fun e' => e'.bare = e.bare := by
  refine .skipBehind ['\n'] ?_
  simp only [Export.chunks, List.append_assoc, List.cons_append, List.nil_append]
  refine rereads_here fun start => ?_
  by_cases defines : ∃ d, e = .definition d
  · obtain ⟨⟨as, kind, span⟩, rfl⟩ := defines
    obtain ⟨⟨annotated, formed⟩, inside⟩ := formed
    obtain ⟨uses, enough⟩ := Outline.cost_beside_le.mp (Nat.le_of_succ_le_succ enough)
    refine (rereads_lineUses annotated uses (bears_kind kind) (stops_at_kind kind)).bind
      fun as' same => ?_
    refine rereads_test (b := true)
      (fun s spelled => startsInner_of_spelled formed inside spelled) ?_
    refine (rereads_definitionKind inners formed enough).bind fun kind' same' => ?_
    refine rereads_mark <| rereads_spanFrom fun span => .pure ?_
    simp only [Export.bare, Definition.bare, same, same']
  · have plain (d : Definition) : e ≠ .definition d := fun same => defines ⟨d, same⟩
    refine (rereads_lineUses (Export.Formed.annotations plain formed)
      (cost_annotations_le plain enough) (bears_plainExport plain)
      (stops_of_front (front_plainExport_ne plain formed (by decide)))).bind fun as same => ?_
    refine rereads_test (b := false) (fun s spelled => ?_) ?_
    · exact not_startsInner (s.kind_of_spelled spelled) (front_plainExport_ne_inner plain formed)
    refine (rereads_plainExport plain formed enough same).bind fun e' same' => ?_
    exact rereads_mark (.pure same')

end

/-- Definitions and exports are read back, if there are as many levels left as they need. -/
theorem rereads_at {limit left : Nat} :
    Inner.Rereads ⟨definitionAt limit left, exportAt limit left⟩ left := by
  induction left with
  | zero =>
    refine ⟨fun d n r _ enough => ?_, fun e n r _ enough => ?_⟩
    · obtain ⟨as, kind, span⟩ := d
      exact absurd enough (Nat.not_succ_le_zero _)
    · match e with
      | .definition ⟨_, _, _⟩ | .attribute _ | .operation _ | .stateMember _ | .initializer _
      | .port _ => exact absurd enough (Nat.not_succ_le_zero _)
  | succ left ih =>
    exact ⟨fun d n r formed enough =>
        rereads_definitionWith (l := ⟨limit, left, false⟩) ih formed enough,
      fun e n r formed enough => rereads_exportWith (l := ⟨limit, left, false⟩) ih formed enough⟩

end Grammar

end Idl
