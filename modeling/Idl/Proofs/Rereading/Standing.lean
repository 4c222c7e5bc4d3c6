import Idl.Proofs.Rereading.Spelling

/-!
The chunks of a tree that the grammar forms stand one in front of the other. Main statement:
`Specification.Formed.standing`.
-/

set_option autoImplicit false

namespace Idl

/-- The chunks may stand behind a word. -/
structure Behind (r : List Chunk) : Prop where
  delimited : Delimited (printed r)
  standing : Standing r

section

variable {r inside : List Chunk} {n : Nat}

/-! Single chunks. -/

@[simp] theorem standing_nil : Standing [] := trivial

@[simp] theorem standing_blank : Standing (.blank :: r) ↔ Standing r := by
  simp [Standing, Chunk.Stands]

@[simp] theorem standing_newline : Standing (.newline :: r) ↔ Standing r := by
  simp [Standing, Chunk.Stands]

@[simp] theorem standing_indent : Standing (.indent n :: r) ↔ Standing r := by
  simp [Standing, Chunk.Stands, Chunk.indent, List.mem_replicate]

@[simp] theorem standing_word {k : Keyword} : Standing (.word k :: r) ↔ Behind r :=
  ⟨fun ⟨d, s⟩ => ⟨d, s⟩, fun ⟨d, s⟩ => ⟨d, s⟩⟩

@[simp] theorem standing_mark {m : Punct} : Standing (.mark m :: r) ↔
    (m = .colon ∨ m = .slash → ∀ d ∈ (printed r).head?, d ≠ ':' ∧ d ≠ '/' ∧ d ≠ '*') ∧
      Standing r :=
  Iff.rfl

@[simp] theorem standing_ident {i : Ident} : Standing (.ident i :: r) ↔ i.Formed ∧ Behind r :=
  ⟨fun ⟨⟨f, d⟩, s⟩ => ⟨f, d, s⟩, fun ⟨f, d, s⟩ => ⟨⟨f, d⟩, s⟩⟩

@[simp] theorem standing_name {name : ScopedName} :
    Standing (.name name :: r) ↔ name.Formed ∧ Behind r :=
  ⟨fun ⟨⟨f, d⟩, s⟩ => ⟨f, d, s⟩, fun ⟨f, d, s⟩ => ⟨⟨f, d⟩, s⟩⟩

@[simp] theorem standing_label {name : ScopedName} :
    Standing (.label name :: r) ↔ (name.IsKeyword ∨ name.Formed) ∧ Behind r :=
  ⟨fun ⟨⟨f, d⟩, s⟩ => ⟨f, d, s⟩, fun ⟨f, d, s⟩ => ⟨⟨f, d⟩, s⟩⟩

@[simp] theorem standing_literal {l : Literal} :
    Standing (.literal l :: r) ↔ l.Formed ∧ Behind r :=
  ⟨fun ⟨⟨f, d⟩, s⟩ => ⟨f, d, s⟩, fun ⟨f, d, s⟩ => ⟨⟨f, d⟩, s⟩⟩

@[simp] theorem standing_op {o : BinaryOp} :
    Standing (.op o :: .blank :: r) ↔ Standing r := by
  simp [Standing, Chunk.Stands, Chunk.chars]

@[simp] theorem standing_text {s : String} : Standing (.text s :: r) ↔ Standing r := by
  simp [Standing, Chunk.Stands]

@[simp] theorem behind_blank : Behind (.blank :: r) ↔ Standing r :=
  ⟨fun behind => standing_blank.mp behind.standing,
    fun standing => ⟨.cons (by decide), standing_blank.mpr standing⟩⟩

@[simp] theorem behind_newline : Behind (.newline :: r) ↔ Standing r :=
  ⟨fun behind => standing_newline.mp behind.standing,
    fun standing => ⟨.cons (by decide), standing_newline.mpr standing⟩⟩

@[simp] theorem behind_mark {m : Punct} : Behind (.mark m :: r) ↔ Standing (.mark m :: r) := by
  refine ⟨Behind.standing, fun standing => ⟨?_, standing⟩⟩
  cases m <;> exact .cons (by decide)

/-! Rows of chunks. -/

variable {α : Type} {as : List α} {f : α → List Chunk}

theorem standing_flatMap (each : ∀ a ∈ as, ∀ r, Standing r → Standing (f a ++ r))
    (standing : Standing r) : Standing (as.flatMap f ++ r) := by
  induction as with
  | nil => exact standing
  | cons a as ih =>
    rw [List.forall_mem_cons] at each
    rw [List.flatMap_cons, List.append_assoc]
    exact each.1 _ (ih each.2)

theorem behind_flatMap (each : ∀ a ∈ as, ∀ r, Behind r → Behind (f a ++ r))
    (behind : Behind r) : Behind (as.flatMap f ++ r) := by
  induction as with
  | nil => exact behind
  | cons a as ih =>
    rw [List.forall_mem_cons] at each
    rw [List.flatMap_cons, List.append_assoc]
    exact each.1 _ (ih each.2)

theorem standing_commas (each : ∀ a ∈ as, ∀ r, Behind r → Standing (f a ++ r))
    (behind : Behind r) : Standing (commas f as ++ r) := by
  cases as with
  | nil => exact behind.standing
  | cons a as =>
    rw [List.forall_mem_cons] at each
    rw [commas, List.append_assoc]
    refine each.1 _ (behind_flatMap (fun b mem r behind => ?_) behind)
    simpa using each.2 b mem r behind

theorem standing_identChunks {is : List Ident} (formed : ∀ i ∈ is, i.Formed)
    (behind : Behind r) : Standing (identChunks is ++ r) :=
  standing_commas (fun i mem r behind => by simpa using ⟨formed i mem, behind⟩) behind

theorem standing_nameChunks {ns : List ScopedName} (formed : ∀ n ∈ ns, n.Formed)
    (behind : Behind r) : Standing (nameChunks ns ++ r) :=
  standing_commas (fun i mem r behind => by simpa using ⟨formed i mem, behind⟩) behind

theorem behind_braced (standing : Standing (inside ++ .indent n :: .mark .rightBrace :: r)) :
    Behind (braced n inside ++ r) := by
  simpa [braced] using standing

/-- What closes a body stands in front of whatever stands behind a word. -/
theorem standing_close (behind : Behind r) :
    Standing (.indent n :: .mark .rightBrace :: r) := by
  simpa using behind.standing

theorem behind_raises {k : Keyword} {ns : List ScopedName} (formed : ∀ n ∈ ns, n.Formed)
    (behind : Behind r) : Behind (raisesChunks k ns ++ r) := by
  rw [raisesChunks]
  split
  · exact behind
  · have names := standing_nameChunks (r := .mark .rightParen :: r) formed
      (by simpa using behind.standing)
    simpa using names

/-! Expressions, annotations and declarators. -/

theorem ConstExpr.Formed.standing {e : ConstExpr} (formed : e.Formed) (behind : Behind r) :
    Standing (e.chunks ++ r) := by
  induction e generalizing r with
  | binary o left right span value ih ih' =>
    obtain ⟨first, second, -⟩ := formed
    have tail := ih' second (r := .mark .rightParen :: r) (by simpa using behind.standing)
    have both := ih first (r := .blank :: .op o :: .blank :: (right.chunks ++
      .mark .rightParen :: r)) (by simpa using tail)
    simpa [ConstExpr.chunks] using both
  | unary o operand span value ih =>
    have inner := ih formed.1 behind
    have plain : ¬ (o.mark = .colon ∨ o.mark = .slash) := by cases o <;> decide
    simpa [ConstExpr.chunks, plain] using inner
  | literal l span value => simpa [ConstExpr.chunks] using ⟨formed.1, behind⟩
  | name n span value => simpa [ConstExpr.chunks] using ⟨formed.1, behind⟩

theorem AnnotationArgs.Formed.behind {args : AnnotationArgs} (formed : args.Formed)
    (behind : Behind r) : Behind (args.chunks ++ r) := by
  have closed : Behind (.mark .rightParen :: r) := by simpa using behind.standing
  cases args with
  | none => exact behind
  | single e => simpa [AnnotationArgs.chunks] using ConstExpr.Formed.standing formed closed
  | named params =>
    have each := standing_commas (f := fun p : Ident × ConstExpr =>
      .ident p.1 :: .blank :: .mark .equals :: .blank :: p.2.chunks) (fun p mem r behind => by
        simpa using ⟨(formed.2 p mem).1, (formed.2 p mem).2.standing behind⟩) closed
    simpa [AnnotationArgs.chunks] using each

theorem AnnotationUse.Formed.standing {a : AnnotationUse} (formed : a.Formed)
    (behind : Behind r) : Standing (a.chunks ++ r) := by
  simpa [AnnotationUse.chunks] using ⟨formed.name, formed.args.behind behind⟩

theorem standing_lineUses {as : List AnnotationUse} (formed : ∀ a ∈ as, a.Formed)
    (standing : Standing r) : Standing (lineUses n as ++ r) := by
  refine standing_flatMap (fun a mem r standing => ?_) standing
  have use := (formed a mem).standing (r := .newline :: r) (by simpa using standing)
  simpa using use

theorem standing_inlineUses {as : List AnnotationUse} (formed : ∀ a ∈ as, a.Formed)
    (standing : Standing r) : Standing (inlineUses as ++ r) := by
  refine standing_flatMap (fun a mem r standing => ?_) standing
  have use := (formed a mem).standing (r := .blank :: r) (by simpa using standing)
  simpa using use

theorem Declarator.Formed.standing {d : Declarator} (formed : d.Formed) (behind : Behind r) :
    Standing (d.chunks ++ r) := by
  have dims := behind_flatMap (f := fun e : ConstExpr =>
      .mark .leftBracket :: (e.chunks ++ [.mark .rightBracket])) (fun e mem r behind => by
    have dim := (formed.dims e mem).standing (r := .mark .rightBracket :: r)
      (by simpa using behind.standing)
    simpa using dim) behind
  simpa [Declarator.chunks] using ⟨formed.name, dims⟩

theorem standing_declarators {ds : List Declarator} (formed : ∀ d ∈ ds, d.Formed)
    (behind : Behind r) : Standing (declaratorChunks ds ++ r) :=
  standing_commas (fun d mem _ => (formed d mem).standing) behind

/-! Types that hold no others. -/

theorem standing_primitive (k : Primitive) (behind : Behind r) : Standing (k.chunks ++ r) := by
  rw [Primitive.chunks]
  cases k.words with
  | nil => exact behind.standing
  | cons w words =>
    have more : Behind (words.flatMap (fun v => [.blank, .word v]) ++ r) :=
      behind_flatMap (fun v _ r behind => by simpa using behind) behind
    simpa using more

theorem behind_base {b : Option NamedType} (formed : ∀ t ∈ b, t.Formed) (behind : Behind r) :
    Behind (baseChunks b ++ r) := by
  cases b with
  | none => exact behind
  | some t => simpa [baseChunks, Chunk.chars] using ⟨(formed t rfl).name, behind⟩

theorem behind_bound {b : Option ConstExpr} (formed : ∀ e ∈ b, e.Formed) (behind : Behind r) :
    Behind (boundChunks b ++ r) := by
  cases b with
  | none => exact behind
  | some e => simpa [boundChunks] using (formed e rfl).standing behind

theorem behind_textBound {b : Option ConstExpr} (formed : ∀ e ∈ b, e.Formed)
    (behind : Behind r) : Behind (textBoundChunks b ++ r) := by
  cases b with
  | none => exact behind
  | some e =>
    have bound := (formed e rfl).standing (r := .mark .greater :: r)
      (by simpa using behind.standing)
    simpa [textBoundChunks] using bound

theorem standing_enumerators {vs : List Enumerator} (formed : ∀ v ∈ vs, v.Formed)
    (standing : Standing r) : Standing (enumeratorChunks n vs ++ r) := by
  fun_induction enumeratorChunks n vs with
  | case1 => exact standing
  | case2 v =>
    rw [List.forall_mem_singleton] at formed
    have uses := standing_inlineUses (r := .ident v.name :: .newline :: r) formed.annotations
      (by simpa using ⟨formed.name, standing⟩)
    simpa using uses
  | case3 v vs _ ih =>
    rw [List.forall_mem_cons] at formed
    have uses := standing_inlineUses (r := .ident v.name :: .mark .comma :: .newline ::
      (enumeratorChunks n vs ++ r)) formed.1.annotations
      (by simpa using ⟨formed.1.name, ih formed.2⟩)
    simpa using uses

theorem EnumType.Formed.standing {t : EnumType} (formed : t.Formed) (behind : Behind r) :
    Standing (t.chunks n ++ r) := by
  have body := standing_enumerators (n := n + 4) formed.enumerators (standing_close (n := n) behind)
  simpa [EnumType.chunks] using ⟨formed.name, behind_braced body⟩

theorem BitmaskType.Formed.standing {t : BitmaskType} (formed : t.Formed) (behind : Behind r) :
    Standing (t.chunks n ++ r) := by
  have body := standing_enumerators (n := n + 4) formed.values (standing_close (n := n) behind)
  simpa [BitmaskType.chunks] using ⟨formed.name, behind_braced body⟩

theorem behind_trail {is : List Ident} (formed : ∀ i ∈ is, i.Formed) (behind : Behind r) :
    Behind (trailChunks is ++ r) := by
  rw [trailChunks]
  split
  · exact behind
  · simpa using standing_identChunks formed behind

theorem behind_fieldType (k : Option Primitive) (behind : Behind r) :
    Behind (fieldTypeChunks k ++ r) := by
  cases k with
  | none => exact behind
  | some k => simpa [fieldTypeChunks] using standing_primitive k behind

theorem Bitfield.Formed.standing {f : Bitfield} (formed : f.Formed) (standing : Standing r) :
    Standing (f.chunks n ++ r) := by
  have names := behind_trail (r := .mark .semi :: .newline :: r) formed.names (by simpa)
  have args := formed.width.standing (behind_fieldType f.type
    (r := .mark .greater :: (trailChunks f.names ++ .mark .semi :: .newline :: r))
    (by simpa using names.standing))
  simp only [Bitfield.chunks, List.append_assoc, List.cons_append, List.nil_append]
  exact standing_lineUses formed.annotations (by simpa using args)

theorem BitsetType.Formed.standing {t : BitsetType} (formed : t.Formed) (behind : Behind r) :
    Standing (t.chunks n ++ r) := by
  have fields := standing_flatMap (f := Bitfield.chunks (n + 4))
    (fun f mem r => (formed.bitfields f mem).standing) (standing_close (n := n) behind)
  have whole := behind_base formed.base (behind_braced fields)
  simpa [BitsetType.chunks] using ⟨formed.name, whole⟩

theorem CaseLabel.Formed.standing {label : CaseLabel} (formed : label.Formed)
    (standing : Standing r) : Standing (label.chunks n ++ r) := by
  cases label with
  | default _ => simpa [CaseLabel.chunks, Chunk.chars] using standing
  | value e =>
    have value := ConstExpr.Formed.standing formed (r := .mark .colon :: .newline :: r)
      (by simpa [Chunk.chars] using standing)
    simpa [CaseLabel.chunks] using value

/-! Types. -/

mutual

theorem TypeSpec.Formed.standing {t : TypeSpec} (formed : t.Formed) {r : List Chunk} {n : Nat}
    (behind : Behind r) : Standing (t.chunks n ++ r) := by
  -- behind the closing angle of a template
  have closed : Behind (.mark .greater :: r) := by simpa using behind.standing
  match t with
  | .primitive k => exact standing_primitive k behind
  | .named t => simpa [TypeSpec.chunks] using ⟨NamedType.Formed.name formed, behind⟩
  | .sequence element b =>
    have args := TypeSpec.Formed.standing formed.1 (n := n) (behind_bound formed.2 closed)
    simpa [TypeSpec.chunks] using args
  | .set element b =>
    have args := TypeSpec.Formed.standing formed.1 (n := n) (behind_bound formed.2 closed)
    simpa [TypeSpec.chunks] using args
  | .map key value b =>
    have second := TypeSpec.Formed.standing formed.2.1 (n := n) (behind_bound formed.2.2 closed)
    have first := TypeSpec.Formed.standing formed.1 (n := n) (r := .mark .comma :: .blank ::
      (value.chunks n ++ (boundChunks b ++ .mark .greater :: r))) (by simpa using second)
    simpa [TypeSpec.chunks] using first
  | .string b => simpa [TypeSpec.chunks] using behind_textBound formed behind
  | .wstring b => simpa [TypeSpec.chunks] using behind_textBound formed behind
  | .fixed none => simpa [TypeSpec.chunks] using behind
  | .fixed (some (digits, scale)) =>
    have second := ConstExpr.Formed.standing formed.2 closed
    have first := ConstExpr.Formed.standing formed.1 (r := .mark .comma :: .blank ::
      (scale.chunks ++ .mark .greater :: r)) (by simpa using second)
    simpa [TypeSpec.chunks] using first
  | .struct ⟨i, b, fields, _⟩ =>
    have body := standing_members formed.2.2 (n := n + 4) (standing_close (n := n) behind)
    have whole := behind_base formed.2.1 (behind_braced body)
    simpa [TypeSpec.chunks] using ⟨formed.1, whole⟩
  | .union ⟨i, ⟨as, type, _⟩, cases, _⟩ =>
    have body := standing_cases formed.2.2.2.2 (n := n + 4) (standing_close (n := n) behind)
    have discriminant := TypeSpec.Formed.standing formed.2.2.1 (n := n)
      (r := .mark .rightParen :: (braced n (caseChunks (n + 4) cases) ++ r))
      (by simpa using (behind_braced body).standing)
    have whole := standing_inlineUses formed.2.1 discriminant
    simpa [TypeSpec.chunks] using ⟨formed.1, whole⟩
  | .enum t => exact EnumType.Formed.standing formed behind
  | .bitset t => exact BitsetType.Formed.standing formed behind
  | .bitmask t => exact BitmaskType.Formed.standing formed behind

theorem standing_members {ms : List (Member TypeSpec)} (formed : membersFormed ms)
    {r : List Chunk} {n : Nat} (standing : Standing r) : Standing (memberChunks n ms ++ r) := by
  match ms with
  | [] => exact standing
  | ⟨as, type, ds, _⟩ :: rest =>
    obtain ⟨⟨uses, typeFormed, -, names⟩, others⟩ := formed
    have more := standing_members others (n := n) standing
    have declared := standing_declarators (r := .mark .semi :: .newline ::
      (memberChunks n rest ++ r)) names (by simpa using more)
    have typed := TypeSpec.Formed.standing typeFormed (n := n) (r := .blank ::
      (declaratorChunks ds ++ .mark .semi :: .newline :: (memberChunks n rest ++ r)))
      (by simpa using declared)
    have whole := standing_lineUses (n := n) uses (standing_indent (n := n).mpr typed)
    simpa [memberChunks] using whole

theorem standing_cases {cases : List (UnionCase TypeSpec)} (formed : casesFormed cases)
    {r : List Chunk} {n : Nat} (standing : Standing r) : Standing (caseChunks n cases ++ r) := by
  match cases with
  | [] => exact standing
  | ⟨labels, as, type, d, _⟩ :: rest =>
    obtain ⟨⟨-, labelled, uses, typeFormed, name⟩, others⟩ := formed
    have more := standing_cases others (n := n) standing
    have declared := name.standing (r := .mark .semi :: .newline :: (caseChunks n rest ++ r))
      (by simpa using more)
    have typed := TypeSpec.Formed.standing typeFormed (n := n + 4) (r := .blank ::
      (d.chunks ++ .mark .semi :: .newline :: (caseChunks n rest ++ r))) (by simpa using declared)
    have used := standing_lineUses (n := n + 4) uses (standing_indent (n := n + 4).mpr typed)
    have whole := standing_flatMap (f := CaseLabel.chunks n)
      (fun l mem r => (labelled l mem).standing) used
    simpa [caseChunks] using whole

end

/-! Exports. -/

theorem behind_context (texts : List String) (behind : Behind r) :
    Behind (contextChunks texts ++ r) := by
  rw [contextChunks]
  split
  · exact behind
  · have each : Standing (commas (fun s => [.text s]) texts ++ .mark .rightParen :: r) :=
      standing_commas (fun s _ r behind => by simpa using behind.standing)
        (by simpa using behind.standing)
    simpa using each

theorem Param.Formed.standing {p : Param} (formed : p.Formed) (behind : Behind r) :
    Standing (p.chunks n ++ r) := by
  have typed := TypeSpec.Formed.standing formed.type (n := n) (r := .blank :: .ident p.name :: r)
    (by simpa using ⟨formed.name, behind⟩)
  have whole := standing_inlineUses formed.annotations (r := .word p.direction.word :: .blank ::
    (p.type.chunks n ++ .blank :: .ident p.name :: r)) (by simpa using typed)
  simpa [Param.chunks] using whole

theorem behind_params {ps : List Param} (formed : ∀ p ∈ ps, p.Formed) (behind : Behind r) :
    Behind (paramChunks n ps ++ r) := by
  have each := standing_commas (f := Param.chunks n) (fun p mem r => (formed p mem).standing)
    (r := .mark .rightParen :: r) (by simpa using behind.standing)
  simpa [paramChunks] using each

theorem standing_flag (k : Keyword) (holds : Bool) (standing : Standing r) :
    Standing (flagChunks k holds ++ r) := by
  cases holds
  · exact standing
  · simpa [flagChunks] using standing

theorem Attribute.Formed.standing {a : Attribute} (formed : a.Formed) (behind : Behind r) :
    Standing (a.declChunks n ++ r) := by
  have raised : Behind ((if a.readonly then raisesChunks .raises a.getRaises
      else raisesChunks .getRaises a.getRaises ++ raisesChunks .setRaises a.setRaises) ++ r) := by
    split
    · exact behind_raises formed.getRaises behind
    · rw [List.append_assoc]
      exact behind_raises formed.getRaises (behind_raises formed.setRaises behind)
  have typed := TypeSpec.Formed.standing formed.type (n := n) (behind_trail formed.names raised)
  have flagged := standing_flag .readonly a.readonly (standing_word (k := .attributeKw).mpr
    (behind_blank.mpr typed))
  simpa [Attribute.declChunks] using flagged

theorem Operation.Formed.standing {o : Operation} (formed : o.Formed) (behind : Behind r) :
    Standing (o.declChunks n ++ r) := by
  have raised := behind_params (n := n) formed.params
    (behind_raises (k := .raises) formed.raises (behind_context o.context behind))
  have named : Behind (.blank :: .ident o.name :: (paramChunks n o.params ++
      (raisesChunks .raises o.raises ++ (contextChunks o.context ++ r)))) := by
    simpa using ⟨formed.name, raised⟩
  have typed : Standing (resultChunks n o.result ++ .blank :: .ident o.name ::
      (paramChunks n o.params ++ (raisesChunks .raises o.raises ++
        (contextChunks o.context ++ r)))) := by
    cases eq : o.result with
    | none => exact standing_word.mpr named
    | some t => exact TypeSpec.Formed.standing (formed.result t eq) named
  have flagged := standing_flag .oneway o.oneway typed
  simpa [Operation.declChunks] using flagged

theorem standing_stateMember {m : StateMember} (formed : m.member.Formed) (behind : Behind r) :
    Standing (m.declChunks n ++ r) := by
  have typed := TypeSpec.Formed.standing formed.type (n := n)
    (behind_blank.mpr (standing_declarators formed.declarators behind))
  simpa [StateMember.declChunks] using typed

theorem Initializer.Formed.standing {i : Initializer} (formed : i.Formed) (behind : Behind r) :
    Standing (i.declChunks n ++ r) := by
  have raised := behind_params (n := n) formed.params
    (behind_raises (k := .raises) formed.raises behind)
  simpa [Initializer.declChunks] using ⟨formed.name, raised⟩

theorem Port.Formed.standing {p : Port} (formed : p.Formed) (behind : Behind r) :
    Standing (p.declChunks ++ r) := by
  obtain ⟨kind, type, i, span⟩ := p
  match kind with
  | .provides | .uses true | .uses false | .emits | .publishes | .consumes =>
    simpa [Port.declChunks, PortKind.chunks] using ⟨formed.type, formed.name, behind⟩

/-! Definitions. -/

theorem standing_qualifier {q : Option Qualifier} (standing : Standing r) :
    Standing (qualifierChunks q ++ r) := by
  cases q with
  | none => exact standing
  | some q => simpa [qualifierChunks] using standing

theorem behind_lead (lead : List Chunk) (leads : ∀ r, Standing r → Behind (lead ++ r))
    {ns : List ScopedName} (formed : ∀ n ∈ ns, n.Formed) (behind : Behind r) :
    Behind (leadChunks lead ns ++ r) := by
  rw [leadChunks]
  split
  · exact behind
  · rw [List.append_assoc]
    exact leads _ (standing_nameChunks formed behind)

theorem behind_supports {ns : List ScopedName} (formed : ∀ n ∈ ns, n.Formed)
    (behind : Behind r) : Behind (supportsChunks ns ++ r) :=
  behind_lead _ (fun r standing => by simpa using standing) formed behind

theorem behind_bases {ns : List ScopedName} (formed : ∀ n ∈ ns, n.Formed)
    (behind : Behind r) : Behind (leadChunks [.blank, .mark .colon, .blank] ns ++ r) :=
  behind_lead _ (fun r standing => by simpa [Chunk.chars] using standing) formed behind

theorem ValueType.Headed.standing {v : ValueType Definition} {k : Keyword} (headed : v.Headed)
    (behind : Behind r) : Standing (v.headChunks k ++ r) := by
  have bases := behind_lead (.blank :: .mark .colon :: .blank ::
      flagChunks .truncatable v.truncatable)
    (fun r standing => by
      simpa [Chunk.chars] using standing_flag .truncatable v.truncatable standing)
    headed.bases (behind_supports headed.supports behind)
  have whole := standing_qualifier (q := v.qualifier) (r := .word k :: .blank :: .ident v.name ::
    (leadChunks (.blank :: .mark .colon :: .blank :: flagChunks .truncatable v.truncatable)
        v.bases ++
      (supportsChunks v.supports ++ r))) (by simpa using ⟨headed.name, bases⟩)
  simpa [ValueType.headChunks] using whole

theorem behind_optional (lead : List Chunk) (leads : ∀ r, Standing r → Behind (lead ++ r))
    {name : Option ScopedName} (formed : ∀ n ∈ name, n.Formed) (behind : Behind r) :
    Behind (optionalChunks lead name ++ r) := by
  cases name with
  | none => exact behind
  | some name =>
    rw [optionalChunks, List.append_assoc]
    exact leads _ (by simpa using ⟨formed name rfl, behind⟩)

theorem behind_colon {name : Option ScopedName} (formed : ∀ n ∈ name, n.Formed)
    (behind : Behind r) : Behind (colonChunks name ++ r) :=
  behind_optional _ (fun r standing => by simpa [Chunk.chars] using standing) formed behind

theorem behind_default {e : Option ConstExpr} (formed : ∀ v ∈ e, v.Formed)
    (behind : Behind r) : Behind (defaultChunks e ++ r) := by
  cases e with
  | none => exact behind
  | some e => simpa [defaultChunks] using (formed e rfl).standing behind

theorem AnnotationMember.Formed.standing {m : AnnotationMember} (formed : m.Formed)
    (standing : Standing r) : Standing (m.chunks n ++ r) := by
  have default := behind_default (r := .mark .semi :: .newline :: r) formed.default (by simpa)
  have typed := TypeSpec.Formed.standing formed.type (n := n) (r := .blank :: .ident m.name ::
    (defaultChunks m.default ++ .mark .semi :: .newline :: r))
    (by simpa using ⟨formed.name, default⟩)
  simpa [AnnotationMember.chunks] using typed

/-- The word that annotations are declared with is no keyword. -/
theorem formed_annotationWord : Ident.Formed ⟨"annotation", .empty⟩ :=
  ⟨⟨'a', _, rfl, rfl, List.all_eq_true.mp rfl⟩, rfl⟩

mutual

theorem Definition.Formed.standing {d : Definition} (formed : d.Formed) {r : List Chunk} {n : Nat}
    (standing : Standing r) : Standing (d.chunks n ++ r) := by
  match d with
  | ⟨as, kind, _⟩ =>
    have inner := standing_kind formed.2 (n := n) (r := .mark .semi :: .newline :: r) (by simpa)
    have whole := standing_lineUses (n := n) formed.1 (standing_indent (n := n).mpr inner)
    simpa [Definition.chunks] using whole

theorem standing_kind {kind : DefinitionKind Definition} (formed : kindFormed kind)
    {r : List Chunk} {n : Nat} (behind : Behind r) : Standing (kindChunks n kind ++ r) := by
  match kind with
  | .module ⟨i, ds⟩ =>
    have body := standing_definitions formed.2 (n := n + 4) (standing_close (n := n) behind)
    simpa [kindChunks] using ⟨formed.1, behind_braced body⟩
  | .struct t => simpa only [kindChunks] using TypeSpec.Formed.standing formed behind
  | .union t => simpa only [kindChunks] using TypeSpec.Formed.standing formed behind
  | .enum t => exact EnumType.Formed.standing formed behind
  | .bitset t => exact BitsetType.Formed.standing formed behind
  | .bitmask t => exact BitmaskType.Formed.standing formed behind
  | .typedef d =>
    have typed := TypeSpec.Formed.standing (Typedef.Formed.type formed) (n := n)
      (behind_blank.mpr (standing_declarators (Typedef.Formed.declarators formed) behind))
    simpa [kindChunks] using typed
  | .const d =>
    have value := (ConstDecl.Formed.value formed).standing behind
    have typed := TypeSpec.Formed.standing (ConstDecl.Formed.type formed) (n := n)
      (r := .blank :: .ident d.name :: .blank :: .mark .equals :: .blank :: (d.value.chunks ++ r))
      (by simpa using ⟨ConstDecl.Formed.name formed, value⟩)
    simpa [kindChunks] using typed
  | .exception d =>
    have body := standing_members ((membersFormed_iff _).mpr (ExceptionDecl.Formed.members formed))
      (n := n + 4) (standing_close (n := n) behind)
    simpa [kindChunks] using ⟨ExceptionDecl.Formed.name formed, behind_braced body⟩
  | .native i => simpa [kindChunks] using ⟨formed, behind⟩
  | .forward d =>
    have word := standing_qualifier (q := d.qualifier) (r := .word d.kind.word :: .blank ::
      .ident d.name :: r) (by simpa using ⟨ForwardDecl.Formed.name formed, behind⟩)
    simpa [kindChunks] using word
  | .interface ⟨i, q, bases, body⟩ =>
    have body := standing_exports formed.2.2.2 (n := n + 4) (standing_close (n := n) behind)
    have head := behind_bases formed.2.2.1 (behind_braced body)
    have whole := standing_qualifier (q := q) (standing_word (k := .interface).mpr
      (behind_blank.mpr (standing_ident.mpr ⟨formed.1, head⟩)))
    simpa [kindChunks] using whole
  | .value ⟨i, q, truncatable, bases, supports, body⟩ =>
    have body := standing_exports formed.2 (n := n + 4) (standing_close (n := n) behind)
    have whole := formed.1.standing (k := .valueType) (behind_braced body)
    simpa [kindChunks] using whole
  | .event ⟨i, q, truncatable, bases, supports, body⟩ =>
    have body := standing_exports formed.2 (n := n + 4) (standing_close (n := n) behind)
    have whole := formed.1.standing (k := .eventType) (behind_braced body)
    simpa [kindChunks] using whole
  | .valueBox d =>
    have typed := TypeSpec.Formed.standing (ValueBox.Formed.type formed) (n := n) behind
    simpa [kindChunks] using ⟨ValueBox.Formed.name formed, typed⟩
  | .component ⟨i, b, supports, body⟩ =>
    have body := standing_exports formed.2 (n := n + 4) (standing_close (n := n) behind)
    have head := behind_colon formed.1.2.1 (behind_supports formed.1.2.2 (behind_braced body))
    simpa [kindChunks] using ⟨formed.1.1, head⟩
  | .home ⟨i, b, supports, manages, key, body⟩ =>
    have body := standing_exports formed.2 (n := n + 4) (standing_close (n := n) behind)
    obtain ⟨name, base, supported, managed, keyed⟩ := formed.1
    have tail := behind_optional [.blank, .word .primaryKey, .blank]
      (fun r standing => by simpa using standing) keyed (behind_braced body)
    have head := behind_colon base (behind_supports supported (r := .blank :: .word .manages ::
      .blank :: .name manages :: (optionalChunks [.blank, .word .primaryKey, .blank] key ++
        (braced n (exportChunks (n + 4) _) ++ r))) (by simpa using ⟨managed, tail⟩))
    simpa [kindChunks] using ⟨name, head⟩
  | .typeId d => simpa [kindChunks] using ⟨formed, behind.standing⟩
  | .typePrefix d => simpa [kindChunks] using ⟨formed, behind.standing⟩
  | .annotationDecl ⟨i, ms, ds⟩ =>
    have inner := standing_definitions formed.2 (n := n + 4) (standing_close (n := n) behind)
    have body := standing_flatMap (f := AnnotationMember.chunks (n + 4))
      (fun m mem r => (formed.1.2.1 m mem).standing) inner
    rw [← List.append_assoc] at body
    simpa [kindChunks] using ⟨formed_annotationWord, formed.1.1, behind_braced body⟩

theorem standing_definitions {ds : List Definition} (formed : allFormed ds) {r : List Chunk}
    {n : Nat} (standing : Standing r) : Standing (definitionChunks n ds ++ r) := by
  match ds with
  | [] => exact standing
  | d :: rest =>
    have more := standing_definitions formed.2 (n := n) standing
    have whole := Definition.Formed.standing formed.1 (n := n) more
    simpa [definitionChunks] using whole

theorem standing_exports {es : List (Export Definition)} (formed : exportsFormed es)
    {r : List Chunk} {n : Nat} (standing : Standing r) : Standing (exportChunks n es ++ r) := by
  -- what stands behind an export that is no definition
  have ended {rest : List (Export Definition)} (more : Standing (exportChunks n rest ++ r)) :
      Behind (.mark .semi :: .newline :: (exportChunks n rest ++ r)) := by simpa
  match es with
  | [] => exact standing
  | .definition d :: rest =>
    have more := standing_exports formed.2 (n := n) standing
    simpa [exportChunks] using Definition.Formed.standing formed.1.1 (n := n) more
  | .attribute a :: rest =>
    have more := standing_exports formed.2 (n := n) standing
    have whole := standing_lineUses (n := n) formed.1.annotations
      (standing_indent (n := n).mpr (formed.1.standing (n := n) (ended more)))
    simpa [exportChunks] using whole
  | .operation o :: rest =>
    have more := standing_exports formed.2 (n := n) standing
    have whole := standing_lineUses (n := n) formed.1.annotations
      (standing_indent (n := n).mpr (formed.1.standing (n := n) (ended more)))
    simpa [exportChunks] using whole
  | .stateMember m :: rest =>
    have more := standing_exports formed.2 (n := n) standing
    have whole := standing_lineUses (n := n) formed.1.annotations
      (standing_indent (n := n).mpr (standing_stateMember formed.1 (n := n) (ended more)))
    simpa [exportChunks] using whole
  | .initializer i :: rest =>
    have more := standing_exports formed.2 (n := n) standing
    simpa [exportChunks] using formed.1.standing (n := n) (ended more)
  | .port p :: rest =>
    have more := standing_exports formed.2 (n := n) standing
    simpa [exportChunks] using formed.1.standing (ended more)

end

end

/-- The chunks of a formed unit stand one in front of the other. -/
theorem Specification.Formed.standing {s : Specification} (formed : s.Formed) :
    Standing s.chunks := by
  have definitions := standing_definitions ((allFormed_iff _).mpr formed.definitions) (n := 0)
    standing_nil
  rw [List.append_nil] at definitions
  refine standing_flatMap (fun i mem r standing => ?_) definitions
  obtain ⟨target, span⟩ := i
  cases target with
  | scope name => simpa [Import.chunks] using ⟨formed.imports _ mem, standing⟩
  | file path => simpa [Import.chunks] using standing

end Idl
