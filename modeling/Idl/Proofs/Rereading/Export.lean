import Idl.Grammar.Export
import Idl.Proofs.Rereading.Type

/-!
Attributes, operations, state, initializers and ports are read back from their chunks. Main
statement: `rereads_plainExport`.
-/

set_option autoImplicit false

namespace Idl

def Export.annotations : Export Definition → List AnnotationUse
  | .definition d => d.annotations
  | .attribute a => a.annotations
  | .operation o => o.annotations
  | .stateMember m => m.member.annotations
  | .initializer _ | .port _ => []

/-- The export without its annotations. -/
def Export.declChunks (n : Nat) : Export Definition → List Chunk
  | .definition d => kindChunks n d.kind
  | .attribute a => a.declChunks n
  | .operation o => o.declChunks n
  | .stateMember m => m.declChunks n
  | .initializer i => i.declChunks n
  | .port p => p.declChunks

def Export.chunks (n : Nat) (e : Export Definition) : List Chunk :=
  lineUses n e.annotations ++ .indent n :: (e.declChunks n ++ [.mark .semi, .newline])

theorem exportChunks_eq (n : Nat) (es : List (Export Definition)) :
    exportChunks n es = es.flatMap (Export.chunks n) := by
  induction es with
  | nil => rw [exportChunks, List.flatMap_nil]
  | cons e es ih =>
    obtain ⟨as, kind, span⟩ | _ | _ | _ | _ | _ := e <;>
      simp [exportChunks, Definition.chunks, Export.chunks, Export.annotations,
        Export.declChunks, lineUses, ih]

namespace Grammar

variable {l : Level} {r : List Chunk} {n : Nat} {start : Span}

/-! Names in lists. -/

theorem rereads_scopedNames {ns : List ScopedName} (some : ns ≠ [])
    (comma : front r ≠ .punct .comma) (colons : front r ≠ .punct .colonColon) :
    Rereads scopedNames (nameChunks ns ++ r) r
      fun ms => ms.map ScopedName.unplaced = ns.map ScopedName.unplaced := by
  refine rereads_commaList some (fun n _ ds follows => rereads_scopedName ?_) comma
  change front ds ≠ _
  obtain comma | same := follows
  · simp [comma]
  · rwa [same]

theorem rereads_raises {k : Keyword} {ns : List ScopedName} (other : front r ≠ .keyword k) :
    Rereads (raises k) (raisesChunks k ns ++ r) r
      fun ms => ms.map ScopedName.unplaced = ns.map ScopedName.unplaced := by
  cases ns with
  | nil => exact rereads_eatKeyword_absent other (.pure rfl)
  | cons n ns =>
    have names := rereads_scopedNames (r := .mark .rightParen :: r) (List.cons_ne_nil n ns)
      (by simp) (by simp)
    simp only [raisesChunks, List.isEmpty_cons, Bool.false_eq_true, if_false, List.cons_append,
      List.append_assoc, List.nil_append]
    exact .skip <| rereads_eatKeyword <| rereads_mark <| names.bind fun ms same =>
      rereads_mark (.pure same)

theorem rereads_context {texts : List String} (other : front r ≠ .keyword .context) :
    Rereads context (contextChunks texts ++ r) r (· = texts) := by
  cases texts with
  | nil => exact rereads_eatKeyword_absent other (.pure rfl)
  | cons text texts =>
    have each : Rereads (commaList stringLiteral)
        (commas (fun s => [.text s]) (text :: texts) ++ .mark .rightParen :: r)
        (.mark .rightParen :: r) fun ss => ss.map id = (text :: texts).map id := by
      refine rereads_commaList (List.cons_ne_nil text texts) (fun s _ ds follows => ?_) (by simp)
      refine rereads_stringLiteral ?_
      obtain comma | paren := follows <;> simp [*]
    simp only [contextChunks, List.isEmpty_cons, Bool.false_eq_true, if_false, List.cons_append,
      List.append_assoc, List.nil_append]
    exact .skip <| rereads_eatKeyword <| rereads_mark <| each.bind fun ss same =>
      rereads_mark (.pure (by simpa using same))

/-! Parameters. -/

theorem rereads_direction (d : Direction) :
    Rereads direction (.word d.word :: r) r (· = d) := by
  cases d <;> exact rereads_kind (rereads_discardBump (.pure rfl))

theorem rereads_param {p : Param} (formed : p.Formed) (enough : p.outline.cost ≤ l.left) :
    Rereads (param l) (p.chunks n ++ r) r fun p' => p'.bare = p.bare := by
  obtain ⟨used, typed⟩ := Outline.cost_beside_le.mp enough
  have bears : Bears (.word p.direction.word :: .blank ::
      (p.type.chunks n ++ .blank :: .ident p.name :: r)) :=
    bears_word (by simpa using front_type_ne_mark p.type (by decide))
  simp only [Param.chunks, List.append_assoc, List.cons_append, List.nil_append]
  refine (rereads_inlineUses formed.annotations used bears (by simp)).bind fun uses same => ?_
  refine (rereads_direction p.direction).bind fun way same' => .skip ?_
  refine (rereads_typeSpec p.type n _ formed.type typed endsType_ident).bind fun t same'' => ?_
  refine .skip <| rereads_ident.bind fun name same''' => .pure ?_
  simp only [Param.bare, same, same', same'', same''']

theorem rereads_params {ps : List Param} (formed : ∀ p ∈ ps, p.Formed)
    (enough : (paramsOutline ps).cost ≤ l.left) :
    Rereads (params l) (paramChunks n ps ++ r) r
      fun ps' => ps'.map Param.bare = ps.map Param.bare := by
  have enough : ∀ p ∈ ps, p.outline.cost ≤ l.left := Outline.cost_all_le.mp enough
  simp only [paramChunks, List.append_assoc, List.cons_append, List.nil_append]
  refine rereads_mark ?_
  have ended (ps' : List Param) (same : ps'.map Param.bare = ps.map Param.bare) :
      Rereads (do discard (expect .rightParen); return ps') (.mark .rightParen :: r) r
        fun ps' => ps'.map Param.bare = ps.map Param.bare := rereads_mark (.pure same)
  cases ps with
  | nil =>
    exact rereads_testMark <| Rereads.bind (P := (· = [])) (.pure rfl)
      fun ps' none => ended ps' (by rw [none])
  | cons p ps =>
    have each : Rereads (commaList (param l))
        (commas (Param.chunks n) (p :: ps) ++ .mark .rightParen :: r) (.mark .rightParen :: r)
        fun ps' => ps'.map Param.bare = (p :: ps).map Param.bare :=
      rereads_commaList (List.cons_ne_nil p ps)
        (fun p mem ds _ => rereads_param (formed p mem) (enough p mem)) (by simp)
    refine rereads_testMark_absent ?_ (each.bind ended)
    rw [commas, List.append_assoc, Param.chunks, List.append_assoc]
    exact front_inlineUses_ne (by simp) (by simp)

/-! Exports, each in front of its semicolon. -/

theorem endsType_trail {is : List Ident} (some : is ≠ []) : EndsType (trailChunks is ++ r) := by
  obtain ⟨i, is, rfl⟩ := List.exists_cons_of_ne_nil some
  exact List.mem_cons_self ..

theorem rereads_trail {is : List Ident} (some : is ≠ []) (last : front r ≠ .punct .comma) :
    Rereads (commaList ident) (trailChunks is ++ r) r
      fun js => js.map Ident.unplaced = is.map Ident.unplaced := by
  rw [trailChunks, List.isEmpty_eq_false_iff.mpr some]
  exact .skip (rereads_idents some last)

section

variable {uses : List AnnotationUse}

theorem rereads_attributeDecl {a : Attribute} (formed : a.Formed)
    (same_uses : uses.map AnnotationUse.bare = a.annotations.map AnnotationUse.bare)
    (enough : a.type.outline.cost ≤ l.left) :
    Rereads (attributeDecl l uses) (a.declChunks n ++ .mark .semi :: r) (.mark .semi :: r)
      fun a' => a'.bare = a.bare := by
  obtain ⟨as, readonly, type, is, getRaises, setRaises, span⟩ := a
  have ends {r : List Chunk} : EndsType (trailChunks is ++ r) := endsType_trail formed.nonempty
  cases readonly with
  | true =>
    obtain rfl : setRaises = [] := formed.readonly rfl
    simp only [Attribute.declChunks, flagChunks, if_true, List.append_assoc, List.cons_append,
      List.nil_append]
    refine rereads_here fun start => rereads_eatKeyword <| .skip <| rereads_word <| .skip ?_
    refine (rereads_typeSpec type n _ formed.type enough ends).bind fun t same => ?_
    refine (rereads_trail formed.nonempty ?_).bind fun is' same' => ?_
    · cases getRaises <;> simp [raisesChunks]
    refine (rereads_raises (by simp)).bind fun get same'' => ?_
    refine Rereads.bind (P := (· = [])) (.pure rfl) fun set none => ?_
    refine rereads_spanFrom fun span => .pure ?_
    simp only [Attribute.bare, same_uses, same, same', same'', none]
  | false =>
    simp only [Attribute.declChunks, flagChunks, Bool.false_eq_true, if_false, List.append_assoc,
      List.cons_append, List.nil_append]
    refine rereads_here fun start => rereads_eatKeyword_absent (by simp) <| rereads_word <| .skip ?_
    refine (rereads_typeSpec type n _ formed.type enough ends).bind fun t same => ?_
    refine (rereads_trail formed.nonempty ?_).bind fun is' same' => ?_
    · cases getRaises <;> cases setRaises <;> simp [raisesChunks]
    refine (rereads_raises ?_).bind fun get same'' => ?_
    · cases setRaises <;> simp [raisesChunks]
    refine (rereads_raises (by simp)).bind fun set same''' => ?_
    refine rereads_spanFrom fun span => .pure ?_
    simp only [Attribute.bare, same_uses, same, same', same'', same''']

theorem rereads_operation {o : Operation} (formed : o.Formed)
    (same_uses : uses.map AnnotationUse.bare = o.annotations.map AnnotationUse.bare)
    (enough : o.outline.cost ≤ l.left) :
    Rereads (operation l uses start) (o.declChunks n ++ .mark .semi :: r) (.mark .semi :: r)
      fun o' => o'.bare = o.bare := by
  obtain ⟨as, oneway, result, i, ps, ns, texts, span⟩ := o
  obtain ⟨-, rest⟩ := Outline.cost_beside_le.mp enough
  obtain ⟨typed, given⟩ := Outline.cost_beside_le.mp rest
  simp only [Operation.declChunks, List.append_assoc, List.cons_append]
  generalize behind : paramChunks n ps ++ (raisesChunks .raises ns ++ (contextChunks texts ++
    .mark .semi :: r)) = ds
  -- what stands behind the result
  have named {oneway' : Bool} {result' : Option TypeSpec} (same_oneway : oneway' = oneway)
      (same : result'.map TypeSpec.bare = result.map TypeSpec.bare) :
      Rereads (do
          let name ← ident
          let ps ← params l
          let names ← raises .raises
          let texts ← context
          return (⟨uses, oneway', result', name, ps, names, texts, ← spanFrom start⟩ : Operation))
        (.blank :: .ident i :: ds) (.mark .semi :: r)
        fun o' => o'.bare = (⟨as, oneway, result, i, ps, ns, texts, span⟩ : Operation).bare := by
    subst behind
    refine .skip <| rereads_ident.bind fun name same' => ?_
    refine (rereads_params formed.params given).bind fun ps' same'' => ?_
    refine (rereads_raises ?_).bind fun ns' same''' => ?_
    · cases texts <;> simp [contextChunks]
    refine (rereads_context (by simp)).bind fun texts' same_texts => ?_
    refine rereads_spanFrom fun span => .pure ?_
    simp only [Operation.bare, same_uses, same_oneway, same, same', same'', same''', same_texts]
  have resulted {oneway' : Bool} (same_oneway : oneway' = oneway) : Rereads (do
        let result ← if ← eatKeyword .void then pure none else some <$> typeSpec l
        let name ← ident
        let ps ← params l
        let names ← raises .raises
        let texts ← context
        return (⟨uses, oneway', result, name, ps, names, texts, ← spanFrom start⟩ : Operation))
      (resultChunks n result ++ .blank :: .ident i :: ds) (.mark .semi :: r)
      fun o' => o'.bare = (⟨as, oneway, result, i, ps, ns, texts, span⟩ : Operation).bare := by
    cases result with
    | none =>
      exact rereads_eatKeyword <| Rereads.bind (P := (· = none)) (.pure rfl)
        fun result' none => named same_oneway (by rw [none])
    | some t =>
      have typed := rereads_typeSpec t n (.blank :: .ident i :: ds) (formed.result t rfl) typed
        endsType_ident
      refine rereads_eatKeyword_absent ?_ ?_
      · exact front_type_ne_word t (by cases t.isConstructed <;> decide)
      · exact (Rereads.map (R := fun o => o.map TypeSpec.bare = some t.bare)
          (typed.imp fun t' same => by simp [same])).bind fun o same => named same_oneway same
  cases oneway with
  | true => exact rereads_eatKeyword (.skip (resulted rfl))
  | false =>
    refine rereads_eatKeyword_absent ?_ (resulted rfl)
    cases result with
    | none => simp [flagChunks, resultChunks]
    | some t =>
      have plain := formed.plain rfl t rfl
      exact front_type_ne_word t (by rw [plain]; decide)

theorem rereads_stateMember {m : StateMember} (formed : m.member.Formed)
    (same_uses : uses.map AnnotationUse.bare = m.member.annotations.map AnnotationUse.bare)
    (enough : m.member.outline.cost ≤ l.left) :
    Rereads (stateMember l uses start m.isPublic) (m.declChunks n ++ .mark .semi :: r)
      (.mark .semi :: r) fun m' => m'.bare = m.bare := by
  obtain ⟨-, rest⟩ := Outline.cost_beside_le.mp enough
  obtain ⟨typed, declared⟩ := Outline.cost_beside_le.mp rest
  have ends := endsType_declarators (r := .mark .semi :: r) formed.nonempty
  simp only [StateMember.declChunks, List.append_assoc, List.cons_append]
  refine rereads_discardBump <| .skip ?_
  refine (rereads_typeSpec _ n _ formed.type typed ends).bind fun t same => .skip ?_
  refine (rereads_declarators formed.nonempty formed.declarators declared (by simp) (by simp)).bind
    fun ds same' => rereads_spanFrom fun span => .pure ?_
  simp only [StateMember.bare, Member.bare, same_uses, same, same']

end

theorem rereads_initializer {i : Initializer} (formed : i.Formed)
    (enough : (paramsOutline i.params).cost ≤ l.left) :
    Rereads (initializer l start i.kind) (i.declChunks n ++ .mark .semi :: r) (.mark .semi :: r)
      fun i' => i'.bare = i.bare := by
  simp only [Initializer.declChunks, List.append_assoc, List.cons_append]
  refine rereads_discardBump <| .skip <| rereads_ident.bind fun name same => ?_
  refine (rereads_params formed.params enough).bind fun ps same' => ?_
  refine (rereads_raises (by simp)).bind fun ns same'' => rereads_spanFrom fun span => .pure ?_
  simp only [Initializer.bare, same, same', same'']

/-- A port is read back if its words are. -/
theorem rereads_port {p : Port} {kind : Parser PortKind}
    (words : ∀ r, front r ≠ .keyword .multiple →
      Rereads kind (p.kind.chunks ++ r) r (· = p.kind)) :
    Rereads (port start kind) (p.declChunks ++ .mark .semi :: r) (.mark .semi :: r)
      fun p' => p'.bare = p.bare := by
  simp only [Port.declChunks, List.append_assoc, List.cons_append, List.nil_append]
  refine (words _ ?_).bind fun k same => .skip ?_
  · obtain kind | kind := front_name p.type (.blank :: .ident p.name :: .mark .semi :: r) <;>
      simp [kind]
  refine (rereads_scopedName (by simp)).bind fun type same' => .skip ?_
  refine rereads_ident.bind fun name same'' => rereads_spanFrom fun span => .pure ?_
  simp only [Port.bare, same, same', same'']

/-- The words that operations begin with. -/
def operationWords : List Keyword := .oneway :: .void :: typeWords false

theorem front_operation {o : Operation}
    (plain : o.oneway = false → ∀ t ∈ o.result, t.isConstructed = false) :
    (∃ w ∈ operationWords, front (o.declChunks n ++ r) = .keyword w) ∨
      front (o.declChunks n ++ r) = .ident ∨
        front (o.declChunks n ++ r) = .punct .colonColon := by
  obtain ⟨as, oneway, result, i, ps, ns, texts, span⟩ := o
  cases oneway with
  | true => exact .inl ⟨.oneway, by decide, rfl⟩
  | false =>
    cases result with
    | none => exact .inl ⟨.void, by decide, rfl⟩
    | some t =>
      simp only [Operation.declChunks, flagChunks, Bool.false_eq_true, if_false, List.nil_append,
        resultChunks, List.append_assoc]
      refine (front_type t).imp_left ?_
      rintro ⟨w, mem, kind⟩
      refine ⟨w, ?_, kind⟩
      rw [plain rfl t rfl] at mem
      exact List.mem_cons_of_mem _ (List.mem_cons_of_mem _ mem)

/-! In front of exports that are no definitions. -/

/-- The words that exports begin with, if they are no definitions. -/
def exportWords : List Keyword :=
  operationWords ++ [.readonly, .attributeKw, .publicKw, .privateKw, .factory, .finder, .provides,
    .uses, .emits, .publishes, .consumes]

theorem front_plainExport {e : Export Definition} (plain : ∀ d, e ≠ .definition d)
    (formed : e.Formed) :
    (∃ w ∈ exportWords, front (e.declChunks n ++ r) = .keyword w) ∨
      front (e.declChunks n ++ r) = .ident ∨
        front (e.declChunks n ++ r) = .punct .colonColon := by
  match e with
  | .definition d => exact absurd rfl (plain d)
  | .operation o =>
    exact (front_operation formed.plain).imp_left fun ⟨w, mem, kind⟩ =>
      ⟨w, List.mem_append_left _ mem, kind⟩
  | .attribute ⟨_, true, _, _, _, _, _⟩ | .attribute ⟨_, false, _, _, _, _, _⟩
  | .stateMember ⟨true, _⟩ | .stateMember ⟨false, _⟩ | .initializer ⟨.factory, _, _, _, _⟩
  | .initializer ⟨.finder, _, _, _, _⟩ | .port ⟨.provides, _, _, _⟩ | .port ⟨.uses true, _, _, _⟩
  | .port ⟨.uses false, _, _, _⟩ | .port ⟨.emits, _, _, _⟩ | .port ⟨.publishes, _, _, _⟩
  | .port ⟨.consumes, _, _, _⟩ =>
    exact .inl ⟨_, List.mem_append_right _ (by simp [StateMember.word, InitializerKind.word]), rfl⟩

theorem front_plainExport_ne {e : Export Definition} (plain : ∀ d, e ≠ .definition d)
    (formed : e.Formed) {m : Punct} (other : m ≠ .colonColon) :
    front (e.declChunks n ++ r) ≠ .punct m := by
  obtain ⟨w, -, word⟩ | ident | colons := front_plainExport (n := n) (r := r) plain formed
  · simp [word]
  · simp [ident]
  · simpa [colons] using other.symm

theorem bears_operation (o : Operation) : Bears (o.declChunks n ++ r) := by
  obtain ⟨as, oneway, result, i, ps, ns, texts, span⟩ := o
  simp only [Operation.declChunks, List.append_assoc, List.cons_append]
  cases oneway with
  | true =>
    refine bears_word ?_
    cases result with
    | none => simp [resultChunks]
    | some t => exact front_type_ne_mark t (by decide)
  | false =>
    cases result with
    | none => exact bears_word (r := .blank :: .ident i :: _) (by simp)
    | some t => exact bears_type t endsType_ident

/-- Annotations may stand in front of an export. -/
theorem bears_plainExport {e : Export Definition} (plain : ∀ d, e ≠ .definition d) :
    Bears (e.declChunks n ++ r) := by
  match e with
  | .definition d => exact absurd rfl (plain d)
  | .operation o => exact bears_operation o
  | .attribute ⟨_, true, _, _, _, _, _⟩ =>
    exact bears_word (r := .blank :: .word .attributeKw :: _) (by simp)
  | .attribute ⟨_, false, t, _, _, _, _⟩ =>
    simp only [Export.declChunks, Attribute.declChunks, List.append_assoc, List.cons_append]
    exact bears_word (front_type_ne_mark t (by decide))
  | .stateMember ⟨isPublic, m⟩ =>
    simp only [Export.declChunks, StateMember.declChunks, List.append_assoc, List.cons_append]
    exact bears_word (front_type_ne_mark m.type (by decide))
  | .initializer ⟨kind, i, _, _, _⟩ => exact bears_word (r := .blank :: .ident i :: _) (by simp)
  | .port ⟨.uses true, _, _, _⟩ =>
    exact bears_word (r := .blank :: .word .multiple :: _) (by simp)
  | .port ⟨.provides, t, _, _⟩ | .port ⟨.uses false, t, _, _⟩ | .port ⟨.emits, t, _, _⟩
  | .port ⟨.publishes, t, _, _⟩ | .port ⟨.consumes, t, _, _⟩ =>
    refine bears_word (r := .blank :: .name t :: _) ?_
    obtain kind | kind := front_name t _ <;> rw [front_gap, kind] <;> decide

theorem Export.Formed.annotations {e : Export Definition} (plain : ∀ d, e ≠ .definition d)
    (formed : e.Formed) : ∀ a ∈ e.annotations, a.Formed := by
  match e with
  | .definition d => exact absurd rfl (plain d)
  | .attribute _ => exact Attribute.Formed.annotations formed
  | .operation _ => exact Operation.Formed.annotations formed
  | .stateMember _ => exact Member.Formed.annotations formed
  | .initializer _ | .port _ => exact nofun

theorem cost_annotations_le {e : Export Definition} (plain : ∀ d, e ≠ .definition d)
    (enough : e.outline.cost ≤ l.left + 1) : (usesOutline e.annotations).cost ≤ l.left := by
  have enough {inside : Outline} : e.outline = .level inside → inside.cost ≤ l.left :=
    Outline.cost_inside_le enough
  match e with
  | .definition d => exact absurd rfl (plain d)
  | .attribute _ | .operation _ | .stateMember _ => exact (Outline.cost_beside_le.mp (enough rfl)).1
  | .initializer _ | .port _ => exact Nat.zero_le _

section

variable {uses : List AnnotationUse}

theorem plainExport_of_operation {s : Cursor}
    (kind : (∃ w ∈ operationWords, s.kind = .keyword w) ∨ s.kind = .ident ∨
      s.kind = .punct .colonColon) :
    plainExport l uses start s = (do return Export.operation (← operation l uses start)) s := by
  rw [plainExport, bind_apply]
  obtain ⟨w, mem, kind⟩ | kind | kind := kind
  · have all : ∀ w ∈ operationWords, (portKind? w).isNone = true ∧
        w ∉ [.readonly, .attributeKw, .publicKw, .privateKw, .factory, .finder] := by decide
    obtain ⟨noPort, other⟩ := all w mem
    rw [Option.isNone_iff_eq_none] at noPort
    simp only [Grammar.kind, kind]
    cases w <;> simp_all
  · simp only [Grammar.kind, kind]
  · simp only [Grammar.kind, kind]

/-- An export that is no definition is read back. -/
theorem rereads_plainExport {e : Export Definition} (plain : ∀ d, e ≠ .definition d)
    (formed : e.Formed) (enough : e.outline.cost ≤ l.left + 1)
    (same_uses : uses.map AnnotationUse.bare = e.annotations.map AnnotationUse.bare) :
    Rereads (plainExport l uses start) (e.declChunks n ++ .mark .semi :: r) (.mark .semi :: r)
      fun e' => e'.bare = e.bare := by
  have enough {inside : Outline} : e.outline = .level inside → inside.cost ≤ l.left :=
    Outline.cost_inside_le enough
  match e with
  | .definition d => exact absurd rfl (plain d)
  | .attribute a =>
    obtain ⟨-, typed⟩ := Outline.cost_beside_le.mp (enough rfl)
    have read := rereads_attributeDecl (r := r) (n := n) formed same_uses typed
    obtain ⟨as, readonly, type, is, getRaises, setRaises, span⟩ := a
    cases readonly <;>
      exact rereads_kind (read.wrap fun a' same => by rw [Export.bare, Export.bare, same])
  | .operation o =>
    refine ((rereads_operation formed same_uses (enough rfl)).wrap fun o' same => ?_).congr
      fun s spelled => plainExport_of_operation ?_
    · rw [Export.bare, Export.bare, same]
    · rw [s.kind_of_spelled spelled]
      exact front_operation formed.plain
  | .stateMember ⟨isPublic, m⟩ =>
    have read := @rereads_stateMember l r n start uses ⟨isPublic, m⟩ formed same_uses
      (enough rfl)
    cases isPublic <;>
      exact rereads_kind (read.wrap fun m' same => by rw [Export.bare, Export.bare, same])
  | .initializer ⟨kind, name, ps, ns, span⟩ =>
    have read := @rereads_initializer l r n start ⟨kind, name, ps, ns, span⟩ formed (enough rfl)
    cases kind <;>
      exact rereads_kind (read.wrap fun i' same => by rw [Export.bare, Export.bare, same])
  | .port ⟨kind, type, name, span⟩ =>
    have read {words : Parser PortKind} (reads : ∀ r, front r ≠ .keyword .multiple →
        Rereads words (kind.chunks ++ r) r (· = kind)) :
        Rereads (do return Export.port (← port start words))
          ((Export.port ⟨kind, type, name, span⟩).declChunks n ++ .mark .semi :: r)
          (.mark .semi :: r) fun e => e.bare = (Export.port ⟨kind, type, name, span⟩).bare :=
      (rereads_port (p := ⟨kind, type, name, span⟩) reads).wrap
        fun p' same => by rw [Export.bare, Export.bare, same]
    cases kind with
    | provides | emits | publishes | consumes =>
      exact rereads_kind (read fun r _ => rereads_discardBump (.pure rfl))
    | uses multiple =>
      cases multiple with
      | true =>
        exact rereads_kind (read fun r _ =>
          rereads_discardBump (.skip (rereads_eatKeyword (.pure rfl))))
      | false =>
        exact rereads_kind (read fun r other =>
          rereads_discardBump (rereads_eatKeyword_absent other (.pure rfl)))

end

end Grammar

end Idl
