import Idl.Proofs.Rereading.Bare
import Idl.Proofs.Rereading.Expr
import Idl.Proofs.Rereading.Standing
import Idl.Proofs.Syntax.Outline

/-!
Annotations, declarators and types are read back from their chunks, if the limit leaves room for the
levels that they need as they are written. Main statement: `rereads_typeSpec`.
-/

set_option autoImplicit false

namespace Idl

/-! The levels that a tree needs as it is written. -/

def Outline.cost : Outline → Nat
  | .nothing => 0
  | .expr e => e.cost
  | .beside left right => max left.cost right.cost
  | .level inside => inside.cost + 1

theorem Outline.cost_beside_le {o o' : Outline} {n : Nat} :
    (Outline.beside o o').cost ≤ n ↔ o.cost ≤ n ∧ o'.cost ≤ n := Nat.max_le

theorem Outline.cost_inside_le {o inside : Outline} {n : Nat} (enough : o.cost ≤ n + 1)
    (level : o = .level inside) : inside.cost ≤ n := by
  rw [level] at enough
  exact Nat.le_of_succ_le_succ enough

theorem Outline.cost_all_le {α : Type} {f : α → Outline} {as : List α} {n : Nat} :
    (Outline.all (as.map f)).cost ≤ n ↔ ∀ a ∈ as, (f a).cost ≤ n := by
  induction as with
  | nil => simp [all, cost]
  | cons a as ih =>
    rw [List.forall_mem_cons, ← ih]
    exact cost_beside_le

/-- Three times the levels that the tree has are enough. -/
theorem Outline.Within.cost_le {o : Outline} {n : Nat} (within : o.Within n) : o.cost ≤ 3 * n := by
  induction o generalizing n with
  | nothing => exact Nat.zero_le _
  | expr e =>
    obtain ⟨signs, operations⟩ := within
    rw [Outline.cost, ConstExpr.cost]
    omega
  | beside left right ih ih' => exact Outline.cost_beside_le.mpr ⟨ih within.1, ih' within.2⟩
  | level inside ih =>
    cases n with
    | zero => exact within.elim
    | succ n =>
      have less := ih (n := n) within
      rw [Outline.cost]
      omega

theorem cost_memberOutlines_le {ms : List (Member TypeSpec)} {n : Nat} :
    (memberOutlines ms).cost ≤ n ↔ ∀ m ∈ ms, m.outline.cost ≤ n := by
  induction ms with
  | nil => simp [memberOutlines, Outline.cost]
  | cons m ms ih =>
    rw [List.forall_mem_cons, ← ih, memberOutlines]
    exact Outline.cost_beside_le

theorem cost_caseOutlines_le {r : List (UnionCase TypeSpec)} {n : Nat} :
    (caseOutlines r).cost ≤ n ↔ ∀ c ∈ r, c.outline.cost ≤ n := by
  induction r with
  | nil => simp [caseOutlines, Outline.cost]
  | cons c r ih =>
    rw [List.forall_mem_cons, ← ih, caseOutlines]
    exact Outline.cost_beside_le

theorem cost_boundOutline_le {b : Option ConstExpr} {n : Nat} :
    (boundOutline b).cost ≤ n ↔ ∀ e ∈ b, e.cost ≤ n := by
  cases b <;> simp [boundOutline, Outline.cost]

/-- Annotations may stand in front of the chunks. -/
structure Bears (r : List Chunk) : Prop where
  paren : front r ≠ .punct .leftParen
  brace : (kinds r)[1]? ≠ some (.punct .leftBrace)

theorem bears_word {w : Keyword} {r : List Chunk} (other : front r ≠ .punct .leftBrace) :
    Bears (.word w :: r) :=
  ⟨by simp, fun brace => other (front_of_head (by simpa [Chunk.kinds] using brace))⟩

/-- Where a type ends. -/
def EndsType (r : List Chunk) : Prop :=
  front r ∈ [TokenKind.ident, .punct .comma, .punct .greater, .punct .rightParen, .punct .semi]

theorem EndsType.front_ne {r : List Chunk} (ends : EndsType r) {k : TokenKind}
    (other : k ∉ [TokenKind.ident, .punct .comma, .punct .greater, .punct .rightParen,
      .punct .semi]) : front r ≠ k :=
  fun same => other (same ▸ ends)

namespace Grammar

variable {l : Level} {r ds : List Chunk} {n : Nat}

/-! Annotations. -/

theorem rereads_annotationName {name : ScopedName} :
    Rereads annotationName (.label name :: r) r fun m => m.unplaced = name.unplaced :=
  rereads_of_accepts fun s us vs next spells _ => by
    cases spells with
    | @keyword _ word t _ alone kind lexeme =>
      have reads : Accepts (do
          let t ← bump
          return (⟨false, ⟨t.lexeme, t.span⟩, [], t.span⟩ : ScopedName)) s [t]
          fun m => m.unplaced = name.unplaced := by
        refine (accepts_bump next (by simp [TokenKind.IsBrace, kind])).bindPure
          fun u _ _ same => .pure ?_
        obtain ⟨absolute, ⟨text, place⟩, more, span⟩ := name
        obtain ⟨rfl, rfl, rfl⟩ := alone
        simp [ScopedName.unplaced, Ident.unplaced, same, lexeme]
      refine reads.congr ?_
      rw [annotationName, bind_apply]
      simp only [Grammar.kind, Cursor.kind_of_rest next, kind]
    | label formed spelled apart =>
      refine (accepts_scopedName spelled next apart).congr ?_
      rw [annotationName, bind_apply]
      obtain kind | kind := spelled.front next <;> simp only [Grammar.kind, kind]

/-- Nothing in an expression is a mark of equality. -/
theorem equals_not_mem (e : ConstExpr) : .punct .equals ∉ kinds e.chunks := by
  induction e with
  | binary o left right span value ih ih' =>
    cases o <;>
      simp [ConstExpr.chunks, Chunk.kinds, BinaryOp.kinds, BinaryOp.mark, ih, ih']
  | unary o operand span value ih =>
    cases o <;> simp [ConstExpr.chunks, Chunk.kinds, UnaryOp.mark, ih]
  | literal l span value => cases l <;> simp [ConstExpr.chunks, Chunk.kinds, Literal.tokenKind]
  | name n span value =>
    cases absolute : n.absolute <;>
      simp [ConstExpr.chunks, Chunk.kinds, ScopedName.kinds, absolute]

theorem kinds_expr_ne_nil (e : ConstExpr) : kinds e.chunks ≠ [] := by
  cases e <;> simp [ConstExpr.chunks, Chunk.kinds, ScopedName.kinds]

theorem front_expr (e : ConstExpr) (r : List Chunk) :
    front (e.chunks ++ r) ≠ .punct .rightParen := by
  cases e with
  | binary => simp [ConstExpr.chunks]
  | unary o => cases o <;> simp [ConstExpr.chunks, UnaryOp.mark]
  | literal l => cases l <;> simp [ConstExpr.chunks, front, Chunk.kinds, Literal.tokenKind]
  | name n =>
    obtain kind | kind := front_name n r <;> simp [ConstExpr.chunks, kind]

/-- In front of an expression in parentheses stands no name with a mark of equality. -/
theorem not_named {e : ConstExpr} {s : Cursor}
    (spelled : Spelled (e.chunks ++ .mark .rightParen :: r) s.rest) :
    (s.nth 1).kind ≠ .punct .equals := by
  rw [Cursor.nth_kind_of_spelled spelled, kinds_append]
  obtain ⟨k, ks, whole⟩ := List.exists_cons_of_ne_nil (kinds_expr_ne_nil e)
  have others := equals_not_mem e
  rw [whole, List.mem_cons, not_or] at others
  rw [whole, List.cons_append, List.getElem?_cons_succ]
  cases ks with
  | nil => simp [Chunk.kinds]
  | cons k' ks => simpa using fun same : k' = _ => others.2 (same ▸ List.mem_cons_self ..)

/-- The parameters of an annotation. -/
theorem rereads_annotationParams {params : List (Ident × ConstExpr)} (some : params ≠ [])
    (formed : ∀ p ∈ params, p.1.Formed ∧ p.2.Formed) (enough : ∀ p ∈ params, p.2.cost ≤ l.left)
    (outside : l.inTemplate = false) :
    Rereads (commaList do
        let name ← ident
        discard (expect .equals)
        return (name, ← constExpr l))
      (commas (fun p : Ident × ConstExpr =>
        .ident p.1 :: .blank :: .mark .equals :: .blank :: p.2.chunks) params ++
          .mark .rightParen :: r) (.mark .rightParen :: r)
      fun qs => qs.map (fun p => (p.1.unplaced, p.2.unplaced)) =
        params.map fun p => (p.1.unplaced, p.2.unplaced) := by
  refine rereads_commaList some (fun p mem ds follows => ?_) (by simp)
  have ends : EndsExpr l.inTemplate ds := by
    rw [outside]
    obtain comma | closing := follows
    · exact ⟨_, comma, .inl (by decide)⟩
    · exact ⟨_, closing, .inl (by decide)⟩
  refine rereads_ident.bind fun name same => .skip <| rereads_mark <| .skip ?_
  exact (rereads_constExpr (formed p mem).2 (enough p mem) ends).bind
    fun e same' => .pure (by rw [same, same'])

theorem rereads_annotationArgs {args : AnnotationArgs} (formed : args.Formed)
    (enough : args.outline.cost ≤ l.left) (outside : l.inTemplate = false)
    (inside : List Chunk)
    (whole : args.chunks = .mark .leftParen :: (inside ++ [.mark .rightParen])) :
    Rereads (annotationArgs l) (inside ++ .mark .rightParen :: r) (.mark .rightParen :: r)
      fun args' => args'.bare = args.bare := by
  cases args with
  | none => simp [AnnotationArgs.chunks] at whole
  | single e =>
    obtain rfl : e.chunks = inside := by simpa [AnnotationArgs.chunks] using whole
    refine rereads_testMark_absent (front_expr e _) ?_
    refine rereads_test (b := false) (fun s spelled => ?_) ?_
    · simp [not_named spelled]
    · exact (rereads_constExpr formed enough ⟨_, rfl, .inl (by decide)⟩).bind
        fun e' same => .pure (by rw [AnnotationArgs.bare, AnnotationArgs.bare, same])
  | named params =>
    obtain ⟨some, formed⟩ := formed
    have enough : ∀ p ∈ params, p.2.cost ≤ l.left := Outline.cost_all_le.mp enough
    obtain rfl : commas (fun p : Ident × ConstExpr =>
        .ident p.1 :: .blank :: .mark .equals :: .blank :: p.2.chunks) params = inside := by
      simpa [AnnotationArgs.chunks] using whole
    have params' := rereads_annotationParams (r := r) some formed enough outside
    obtain ⟨p, more, rfl⟩ := List.exists_cons_of_ne_nil some
    refine rereads_testMark_absent (by simp [commas]) ?_
    refine rereads_test (b := true) (fun s spelled => ?_) ?_
    · rw [s.kind_of_spelled spelled, Cursor.nth_kind_of_spelled spelled]
      rfl
    · exact params'.bind fun qs same => .pure
        (by rw [AnnotationArgs.bare, AnnotationArgs.bare, same])

theorem rereads_annotationUse {a : AnnotationUse} (formed : a.Formed)
    (enough : a.outline.cost ≤ l.left) (ends : front r ≠ .punct .leftParen) :
    Rereads (annotationUse l) (a.chunks ++ r) r fun b => b.bare = a.bare := by
  obtain ⟨name, args, span⟩ := a
  change Rereads _ (.mark .atSign :: .label name :: (args.chunks ++ r)) r _
  refine rereads_expect.bind fun start _ => rereads_annotationName.bind fun name' same => ?_
  by_cases none : args = .none
  · subst none
    refine rereads_eat_absent ends ?_
    exact rereads_spanFrom fun span => .pure (by rw [AnnotationUse.bare, AnnotationUse.bare, same])
  · obtain ⟨inside, whole⟩ : ∃ inside,
        args.chunks = .mark .leftParen :: (inside ++ [.mark .rightParen]) := by
      cases args with
      | none => exact absurd rfl none
      | single | named => exact ⟨_, rfl⟩
    have inner := rereads_annotationArgs (l := { l with inTemplate := false }) (r := r)
      formed.args enough rfl inside whole
    rw [whole]
    simp only [List.cons_append, List.append_assoc, List.nil_append]
    refine rereads_eat (inner.bind fun args' same' => rereads_mark ?_)
    exact rereads_spanFrom fun span =>
      .pure (by rw [AnnotationUse.bare, AnnotationUse.bare, same, same'])

/-- A use of an annotation is no declaration of one. -/
theorem atAnnotationDecl_of_use {a : AnnotationUse} (bears : Bears r) {s : Cursor}
    (spelled : Spelled (a.chunks ++ r) s.rest) : atAnnotationDecl s = false := by
  obtain ⟨name, args, span⟩ := a
  change Spelled (.mark .atSign :: .label name :: (args.chunks ++ r)) s.rest at spelled
  -- the name is one word, in front of another one and a brace
  have known (n : Nat) := s.nth_kind_of_spelled spelled n
  by_contra declares
  simp only [atAnnotationDecl, Bool.and_eq_true, beq_iff_eq, Bool.not_eq_false] at declares
  obtain ⟨⟨⟨⟨-, first⟩, -⟩, second⟩, third⟩ := declares
  rw [known] at first second third
  simp only [kinds_cons, Chunk.kinds, ScopedName.kinds] at first second third
  cases absolute : name.absolute with
  | true => simp [absolute] at first
  | false =>
    cases more : name.more with
    | cons i is => simp [absolute, more] at second
    | nil =>
      have closes : (kinds (args.chunks ++ r))[1]? = some (.punct .leftBrace) := by
        simpa [absolute, more, Option.getD_eq_iff] using third
      have opens : (kinds (args.chunks ++ r))[0]? = some .ident := by
        simpa [absolute, more, Option.getD_eq_iff] using second
      cases args with
      | none => exact bears.brace closes
      | single e => simp [AnnotationArgs.chunks, Chunk.kinds] at opens
      | named params => simp [AnnotationArgs.chunks, Chunk.kinds] at opens

/-- Annotations, each with blanks around it. -/
theorem rereads_annotations (lead trail : List Chunk) (leads : solid lead = [])
    (trails : solid trail = []) {as : List AnnotationUse} (formed : ∀ a ∈ as, a.Formed)
    (enough : (usesOutline as).cost ≤ l.left) (bears : Bears r)
    (stops : ∀ s : Cursor, Spelled r s.rest → (!s.at? .atSign || atAnnotationDecl s) = true) :
    Rereads (annotations l) (as.flatMap (fun a => lead ++ (a.chunks ++ trail)) ++ r) r
      fun bs => bs.map AnnotationUse.bare = as.map AnnotationUse.bare := by
  have enough : ∀ a ∈ as, a.outline.cost ≤ l.left := Outline.cost_all_le.mp enough
  have around (a : AnnotationUse) (ds : List Chunk) :
      solid (lead ++ (a.chunks ++ trail) ++ ds) = solid (a.chunks ++ ds) := by
    simp [solid_append, leads, trails]
  have kinds_eq (a : AnnotationUse) (ds : List Chunk) :
      kinds (lead ++ (a.chunks ++ trail) ++ ds) = kinds (a.chunks ++ ds) := by
    rw [← kinds_solid, around, kinds_solid]
  have opens (a : AnnotationUse) (ds : List Chunk) :
      front (lead ++ (a.chunks ++ trail) ++ ds) = .punct .atSign := by
    rw [front, kinds_eq]
    rfl
  refine rereads_many (F := Bears) (fun a mem => ⟨?_, fun ds bears => ⟨?_, ?_⟩,
    fun ds bears s spelled => ?_, fun ds bears => ?_⟩) bears stops
  · simp [AnnotationUse.chunks, Chunk.kinds]
  · rw [opens]
    decide
  · rw [kinds_eq]
    cases absolute : a.name.absolute with
    | true => simp [AnnotationUse.chunks, Chunk.kinds, ScopedName.kinds, absolute]
    | false =>
      have word : TokenKind.ofWord a.name.first.name ≠ .punct .leftBrace := by
        rw [TokenKind.ofWord]
        split <;> simp
      simpa [AnnotationUse.chunks, Chunk.kinds, ScopedName.kinds, absolute] using word
  · rw [s.at?_of_spelled spelled, opens]
    rw [← spelled_solid, around, spelled_solid] at spelled
    simp [atAnnotationDecl_of_use bears spelled]
  · exact (rereads_annotationUse (formed a mem) (enough a mem) bears.paren).of_solid (around a ds)

/-- Annotations or what follows them come next. -/
theorem front_lineUses_ne {as : List AnnotationUse} {k : TokenKind} (sign : k ≠ .punct .atSign)
    (other : front r ≠ k) : front (lineUses n as ++ r) ≠ k := by
  cases as with
  | nil => exact other
  | cons a as => exact sign.symm

theorem front_inlineUses_ne {as : List AnnotationUse} {k : TokenKind} (sign : k ≠ .punct .atSign)
    (other : front r ≠ k) : front (inlineUses as ++ r) ≠ k := by
  cases as with
  | nil => exact other
  | cons a as => exact sign.symm

theorem stops_of_front (other : front r ≠ .punct .atSign) (s : Cursor)
    (spelled : Spelled r s.rest) : (!s.at? .atSign || atAnnotationDecl s) = true := by
  rw [s.at?_of_spelled spelled]
  simp [other]

theorem rereads_lineUses {m : Nat} {as : List AnnotationUse} (formed : ∀ a ∈ as, a.Formed)
    (enough : (usesOutline as).cost ≤ l.left) (bears : Bears r)
    (stops : ∀ s : Cursor, Spelled r s.rest → (!s.at? .atSign || atAnnotationDecl s) = true) :
    Rereads (annotations l) (lineUses n as ++ .indent m :: r) r
      fun bs => bs.map AnnotationUse.bare = as.map AnnotationUse.bare :=
  (rereads_annotations (r := .indent m :: r) [.indent n] [.newline] rfl rfl formed enough
    ⟨bears.paren, bears.brace⟩ fun s spelled => stops s (spelled_gap.mp spelled)).skipBehind

theorem rereads_inlineUses {as : List AnnotationUse} (formed : ∀ a ∈ as, a.Formed)
    (enough : (usesOutline as).cost ≤ l.left) (bears : Bears r)
    (other : front r ≠ .punct .atSign) :
    Rereads (annotations l) (inlineUses as ++ r) r
      fun bs => bs.map AnnotationUse.bare = as.map AnnotationUse.bare :=
  rereads_annotations [] [.blank] rfl rfl formed enough bears
    (stops_of_front other)

/-! Declarators and the types that hold no others. -/

theorem rereads_declarator {d : Declarator} (formed : d.Formed) (enough : d.outline.cost ≤ l.left)
    (ends : front r ≠ .punct .leftBracket) :
    Rereads (declarator l) (d.chunks ++ r) r fun d' => d'.bare = d.bare := by
  obtain ⟨name, dims⟩ := d
  have enough : ∀ e ∈ dims, e.cost ≤ l.left := Outline.cost_all_le.mp enough
  refine rereads_ident.bind fun name' same => ?_
  refine (rereads_many (g := ConstExpr.unplaced) (F := fun _ => True) (fun e mem =>
    ⟨by simp [Chunk.kinds], fun _ _ => trivial, fun ds _ s spelled => ?_, fun ds _ => ?_⟩) trivial
    fun s spelled => ?_).bind fun dims' same' => .pure (by
      rw [Declarator.bare, Declarator.bare, same, same'])
  · rw [s.at?_of_spelled spelled]
    rfl
  · have dim := rereads_constExpr (l := l) (r := .mark .rightBracket :: ds) (formed.dims e mem)
      (enough e mem) ⟨_, rfl, .inl (by decide)⟩
    rw [List.cons_append, List.append_assoc]
    exact rereads_mark (dim.bind fun e' same => rereads_mark (.pure same))
  · simp [s.at?_of_spelled spelled, ends]

theorem rereads_declarators {ds : List Declarator} (some : ds ≠ []) (formed : ∀ d ∈ ds, d.Formed)
    (enough : (declaratorsOutline ds).cost ≤ l.left) (bracket : front r ≠ .punct .leftBracket)
    (comma : front r ≠ .punct .comma) :
    Rereads (declarators l) (declaratorChunks ds ++ r) r
      fun ds' => ds'.map Declarator.bare = ds.map Declarator.bare := by
  have enough : ∀ d ∈ ds, d.outline.cost ≤ l.left := Outline.cost_all_le.mp enough
  refine rereads_commaList some (fun d mem es follows => ?_) comma
  refine rereads_declarator (formed d mem) (enough d mem) ?_
  obtain comma | same := follows
  · simp [comma]
  · rwa [same]

theorem spelled_words (words : List Keyword) {ts : List Token}
    (spelled : Spelled (words.flatMap (fun v => [.blank, .word v]) ++ r) ts) :
    ∃ us vs, ts = us ++ vs ∧ SpellsWords us words ∧ Spelled r vs := by
  induction words generalizing ts with
  | nil => exact ⟨[], ts, rfl, .nil, spelled⟩
  | cons w words ih =>
    obtain ⟨us, vs, rfl, spells, behind⟩ := spelled_gap.mp spelled
    obtain ⟨us', vs', rfl, words, behind⟩ := ih behind
    cases spells with
    | word kind => exact ⟨_ :: us', vs', by simp, .cons kind words, behind⟩

theorem rereads_primitive (k : Primitive) (ends : EndsType r) :
    Rereads primitive? (k.chunks ++ r) r (· = some k) := by
  intro s spelled
  obtain ⟨us, vs, rest, words, behind⟩ :
      ∃ us vs, s.rest = us ++ vs ∧ SpellsWords us k.words ∧ Spelled r vs := by
    obtain ⟨w, words, whole⟩ : ∃ w words, k.words = w :: words := by cases k <;> exact ⟨_, _, rfl⟩
    rw [Primitive.chunks, whole] at spelled
    have spaced : Spelled (.blank :: .word w :: (words.flatMap (fun v => [.blank, .word v]) ++ r))
      s.rest := spelled_gap.mpr spelled
    obtain ⟨us, vs, rest, words, behind⟩ := spelled_words (w :: words) spaced
    exact ⟨us, vs, rest, whole ▸ words, behind⟩
  have other (word : Keyword) : ∀ t ∈ vs.head?, t.kind ≠ .keyword word := by
    intro t mem
    rw [kind_of_head behind mem]
    exact ends.front_ne (by simp)
  obtain ⟨o, t, read, passed, same⟩ := accepts_primitive words rest other
  exact ⟨o, t, read, passed.left rest ▸ behind, passed.errors, same⟩

/-- The base behind a colon. What follows is the body. -/
theorem rereads_base {b : Option NamedType} (formed : ∀ t ∈ b, t.Formed)
    (brace : front r = .punct .leftBrace) :
    Rereads base? (baseChunks b ++ r) r
      fun b' => b'.map NamedType.bare = b.map NamedType.bare := by
  cases b with
  | none => exact rereads_eat_absent (by simp [baseChunks, brace]) (.pure rfl)
  | some t =>
    refine .skip <| rereads_eat <| .skip <| (rereads_scopedName (by simp [brace])).bind
      fun name same => .pure ?_
    simp [NamedType.bare, same, (formed t rfl).unbound]

theorem solid_enumerators (n : Nat) (vs : List Enumerator) :
    solid (enumeratorChunks n vs) = solid (commas Enumerator.chunks vs) := by
  fun_induction enumeratorChunks n vs with
  | case1 => rfl
  | case2 v => simp [Enumerator.chunks, commas, solid, solid_append, Chunk.indent]
  | case3 v vs more ih =>
    obtain ⟨w, vs, rfl⟩ := List.exists_cons_of_ne_nil more
    simp [Enumerator.chunks, commas, solid, solid_append, Chunk.indent, ih]

theorem rereads_idents {is : List Ident} (some : is ≠ []) (last : front r ≠ .punct .comma) :
    Rereads (commaList ident) (identChunks is ++ r) r
      fun js => js.map Ident.unplaced = is.map Ident.unplaced :=
  rereads_commaList some (fun _ _ _ _ => rereads_ident) last

/-- Annotated names in braces. -/
theorem rereads_enumerators {vs : List Enumerator} (some : vs ≠ []) (formed : ∀ v ∈ vs, v.Formed)
    (enough : (enumeratorsOutline vs).cost ≤ l.left) :
    Rereads (enumerators l) (braced n (enumeratorChunks (n + 4) vs) ++ r) r
      fun vs' => vs'.map Enumerator.bare = vs.map Enumerator.bare := by
  have enough : ∀ v ∈ vs, (usesOutline v.annotations).cost ≤ l.left :=
    Outline.cost_all_le.mp enough
  have items : Rereads (commaList do
        let uses ← annotations l
        return (⟨uses, ← ident⟩ : Enumerator))
      (commas Enumerator.chunks vs ++ .mark .rightBrace :: r) (.mark .rightBrace :: r)
      fun vs' => vs'.map Enumerator.bare = vs.map Enumerator.bare := by
    refine rereads_commaList some (fun v mem ds follows => ?_) (by simp)
    have bears : Bears (.ident v.name :: ds) := by
      refine ⟨by simp, fun brace => ?_⟩
      have second : front ds = .punct .leftBrace :=
        front_of_head (by simpa [Chunk.kinds] using brace)
      simp [second] at follows
    rw [Enumerator.chunks, List.append_assoc]
    exact (rereads_inlineUses (formed v mem).annotations (enough v mem) bears (by simp)).bind
      fun uses same => rereads_ident.bind fun name same' => .pure (by
        rw [Enumerator.bare, Enumerator.bare, same, same'])
  have opened : Rereads (enumerators l) (.mark .leftBrace :: (commas Enumerator.chunks vs ++
      .mark .rightBrace :: r))
      r fun vs' => vs'.map Enumerator.bare = vs.map Enumerator.bare :=
    rereads_mark (items.bind fun vs' same => rereads_mark (.pure same))
  refine opened.of_solid ?_
  simp [braced, solid, solid_append, solid_enumerators, Chunk.indent]

theorem rereads_enumType {t : EnumType} (formed : t.Formed)
    (enough : (enumeratorsOutline t.enumerators).cost ≤ l.left) :
    Rereads (enumType l) (t.chunks n ++ r) r fun t' => t'.bare = t.bare := by
  refine rereads_expectKeyword.bind fun start _ => .skip <| rereads_ident.bind fun name same => ?_
  refine (rereads_enumerators formed.nonempty formed.enumerators enough).bind fun vs same' => ?_
  exact rereads_spanFrom fun span => .pure (by rw [EnumType.bare, EnumType.bare, same, same'])

theorem rereads_bitmaskType {t : BitmaskType} (formed : t.Formed)
    (enough : (enumeratorsOutline t.values).cost ≤ l.left) :
    Rereads (bitmaskType l) (t.chunks n ++ r) r fun t' => t'.bare = t.bare := by
  refine rereads_expectKeyword.bind fun start _ => .skip <| rereads_ident.bind fun name same => ?_
  refine (rereads_enumerators formed.nonempty formed.values enough).bind fun vs same' => ?_
  exact rereads_spanFrom fun span => .pure (by rw [BitmaskType.bare, BitmaskType.bare, same, same'])

/-- Arguments in angles. -/
theorem rereads_angled {α : Type} {args : Level → Parser α} {Q : α → Prop}
    (inner : Rereads (args { l with inTemplate := true }) r (.mark .greater :: ds) Q) :
    Rereads (angled l args) (.mark .less :: r) ds Q :=
  rereads_mark (inner.bind fun _ holds => rereads_mark (.pure holds))

theorem endsExpr_greater : EndsExpr true (.mark .greater :: r) := ⟨_, rfl, .inr ⟨rfl, rfl⟩⟩

theorem endsExpr_comma {inTemplate : Bool} : EndsExpr inTemplate (.mark .comma :: r) :=
  ⟨_, rfl, .inl (by decide)⟩

theorem rereads_bitfieldArgs {f : Bitfield} (formed : f.Formed) (enough : f.width.cost ≤ l.left)
    (inside : l.inTemplate = true) :
    Rereads (bitfieldArgs l) (f.width.chunks ++ (fieldTypeChunks f.type ++ .mark .greater :: r))
      (.mark .greater :: r) fun p => p.1.unplaced = f.width.unplaced ∧ p.2 = f.type := by
  obtain ⟨as, width, type, is, span⟩ := f
  cases type with
  | none =>
    refine (rereads_constExpr formed.width enough (inside ▸ endsExpr_greater)).bind fun e same => ?_
    exact rereads_eat_absent (by simp [fieldTypeChunks]) (.pure ⟨same, rfl⟩)
  | some k =>
    refine (rereads_constExpr formed.width enough endsExpr_comma).bind fun e same => ?_
    refine rereads_eat <| .skip <| (rereads_primitive k ?_).bind fun o same' => ?_
    · simp [EndsType]
    · have sized : k.bitWidth?.isSome = true := formed.type k rfl
      rw [same']
      dsimp only
      rw [if_pos sized]
      exact .pure ⟨same, rfl⟩

theorem rereads_bitfield {f : Bitfield} (formed : f.Formed) (enough : f.outline.cost ≤ l.left) :
    Rereads (bitfield l) (f.chunks n ++ r) r fun f' => f'.bare = f.bare := by
  obtain ⟨uses, width⟩ := Outline.cost_beside_le.mp enough
  refine .skipBehind ['\n'] ?_
  simp only [Bitfield.chunks, List.append_assoc, List.cons_append, List.nil_append]
  refine rereads_here fun start => ?_
  refine (rereads_lineUses formed.annotations uses (bears_word (by simp))
    (stops_of_front (by simp))).bind fun as same => rereads_word ?_
  refine (rereads_angled (rereads_bitfieldArgs formed width rfl)).bind fun p same_args => ?_
  obtain ⟨width', type'⟩ := p
  obtain ⟨same', same_type⟩ := same_args
  obtain rfl : type' = f.type := same_type
  have ended (is : List Ident) (same_names : is.map Ident.unplaced = f.names.map Ident.unplaced) :
      Rereads (do
          discard (expect .semi)
          return (⟨as, width', f.type, is, ← spanFrom start⟩ : Bitfield))
        (.mark .semi :: .newline :: r) (.newline :: r) fun f' => f'.bare = f.bare :=
    rereads_mark <| rereads_spanFrom fun span =>
      .pure (by simp only [Bitfield.bare, same, same', same_names])
  cases names : f.names with
  | nil =>
    exact rereads_testMark <| Rereads.bind (P := (· = [])) (.pure rfl)
      fun is none => ended is (by rw [none, names])
  | cons i is =>
    have items := rereads_idents (r := .mark .semi :: .newline :: r) (List.cons_ne_nil i is)
      (by simp)
    refine rereads_testMark_absent (by simp [trailChunks, identChunks, commas]) ?_
    exact .skip (items.bind fun is' same' => ended is' (by rw [names, same']))

theorem rereads_bitsetType {t : BitsetType} (formed : t.Formed) (enough : t.outline.cost ≤ l.left) :
    Rereads (bitsetType l) (t.chunks n ++ r) r fun t' => t'.bare = t.bare := by
  have enough : ∀ f ∈ t.bitfields, f.outline.cost ≤ l.left := Outline.cost_all_le.mp enough
  simp only [BitsetType.chunks, braced, List.append_assoc, List.cons_append, List.nil_append]
  refine rereads_expectKeyword.bind fun start _ => .skip <| rereads_ident.bind fun name same => ?_
  refine (rereads_base formed.base rfl).bind fun base same' => .skip <| rereads_mark <| .skip ?_
  refine (rereads_body (g := Bitfield.bare) (fun f mem => .of_body
    (by simp [Bitfield.chunks, Chunk.kinds]) (fun ds => ?_) fun ds =>
      rereads_bitfield (formed.bitfields f mem) (enough f mem)) rfl).bind
      fun fields same'' => .skip <| rereads_mark <| rereads_spanFrom fun span => .pure ?_
  · rw [Bitfield.chunks, List.append_assoc]
    exact front_lineUses_ne (by simp) (by simp)
  · simp only [BitsetType.bare, same, same', same'']

theorem rereads_caseLabel {label : CaseLabel} (formed : label.Formed)
    (enough : label.outline.cost ≤ l.left) :
    Rereads (caseLabel l) (label.chunks n ++ r) r fun label' => label'.bare = label.bare := by
  refine .skipBehind ['\n'] ?_
  cases label with
  | value e =>
    have value := rereads_constExpr (l := l) (r := .mark .colon :: .newline :: r) formed enough
      ⟨_, rfl, .inl (by decide)⟩
    simp only [CaseLabel.chunks, List.append_assoc, List.cons_append, List.nil_append]
    exact .skip <| rereads_eatKeyword <| .skip <| value.bind fun e' same =>
      rereads_mark (.pure (by rw [CaseLabel.bare, CaseLabel.bare, same]))
  | default span =>
    exact .skip <| rereads_eatKeyword_absent (by simp) <| rereads_expectKeyword.bind fun span _ =>
      rereads_mark (.pure rfl)

/-! Types. -/

/-- The reader reads back the types that need no more than so many levels. -/
def RereadsTypes (left : Nat) (type : Parser TypeSpec) : Prop :=
  ∀ (t : TypeSpec) (n : Nat) (r : List Chunk), t.Formed → t.outline.cost ≤ left → EndsType r →
    Rereads type (t.chunks n ++ r) r fun t' => t'.bare = t.bare

/-- The words that types begin with, whether constructed in place or not. -/
def typeWords : Bool → List Keyword
  | true => [.struct, .union, .enum, .bitset, .bitmask]
  | false => [.short, .unsigned, .long, .int8, .uint8, .int16, .uint16, .int32, .uint32, .int64,
      .uint64, .float, .double, .char, .wchar, .boolean, .octet, .any, .object, .valueBase,
      .sequence, .set, .map, .string, .wstring, .fixed]

/-- A type begins with one of its words or with a name. -/
theorem front_type (t : TypeSpec) :
    (∃ k ∈ typeWords t.isConstructed, front (t.chunks n ++ r) = .keyword k) ∨
      front (t.chunks n ++ r) = .ident ∨ front (t.chunks n ++ r) = .punct .colonColon := by
  match t with
  | .primitive k => cases k <;> exact .inl ⟨_, by decide, rfl⟩
  | .named t => exact .inr (front_name t.name _)
  | .fixed none | .fixed (some (_, _)) | .sequence _ _ | .set _ _ | .map _ _ _ | .string _
  | .wstring _ | .struct ⟨_, _, _, _⟩ | .union ⟨_, ⟨_, _, _⟩, _, _⟩ | .enum _ | .bitset _
  | .bitmask _ =>
    exact .inl ⟨_, by simp [typeWords, TypeSpec.isConstructed], rfl⟩

theorem front_type_ne_mark (t : TypeSpec) {m : Punct} (other : m ≠ .colonColon) :
    front (t.chunks n ++ r) ≠ .punct m := by
  obtain ⟨k, -, word⟩ | ident | colons := front_type (n := n) (r := r) t
  · simp [word]
  · simp [ident]
  · simpa [colons] using other.symm

theorem front_type_ne_word (t : TypeSpec) {k : Keyword} (other : k ∉ typeWords t.isConstructed) :
    front (t.chunks n ++ r) ≠ .keyword k := by
  obtain ⟨w, mem, word⟩ | ident | colons := front_type (n := n) (r := r) t
  · rw [word, ne_eq, TokenKind.keyword.injEq]
    rintro rfl
    exact other mem
  · simp [ident]
  · simp [colons]

theorem bears_type (t : TypeSpec) (ends : EndsType r) : Bears (t.chunks n ++ r) := by
  refine ⟨?_, ?_⟩
  · exact front_type_ne_mark t (by decide)
  · have last : (kinds r)[0]? ≠ some (.punct .leftBrace) :=
      fun brace => ends.front_ne (by simp) (front_of_head brace)
    match t with
    | .primitive k =>
      cases k <;> simp [TypeSpec.chunks, Primitive.chunks, Primitive.words, Chunk.kinds, last]
    | .named t =>
      cases absolute : t.name.absolute <;> cases more : t.name.more <;>
        simp [TypeSpec.chunks, Chunk.kinds, ScopedName.kinds, absolute, more, last]
    | .string b | .wstring b =>
      cases b <;> simp [TypeSpec.chunks, textBoundChunks, Chunk.kinds, last]
    | .fixed none | .fixed (some (_, _)) | .sequence _ _ | .set _ _ | .map _ _ _
    | .struct ⟨_, _, _, _⟩ | .union ⟨_, ⟨_, _, _⟩, _, _⟩ =>
      simp [TypeSpec.chunks, Chunk.kinds, last]
    | .enum t => simp [TypeSpec.chunks, EnumType.chunks, Chunk.kinds]
    | .bitset t => simp [TypeSpec.chunks, BitsetType.chunks, Chunk.kinds]
    | .bitmask t => simp [TypeSpec.chunks, BitmaskType.chunks, Chunk.kinds]

theorem endsType_declarators {ds : List Declarator} (some : ds ≠ []) :
    EndsType (.blank :: (declaratorChunks ds ++ r)) := by
  obtain ⟨d, ds, rfl⟩ := List.exists_cons_of_ne_nil some
  exact List.mem_cons_self ..

theorem endsType_ident {i : Ident} : EndsType (.blank :: .ident i :: r) := List.mem_cons_self ..

/-- Annotations on lines of their own, in front of a type. -/
theorem rereads_lineUses_type {as : List AnnotationUse} {t : TypeSpec} {m k : Nat}
    (formed : ∀ a ∈ as, a.Formed) (enough : (usesOutline as).cost ≤ l.left) (ends : EndsType r) :
    Rereads (annotations l) (lineUses n as ++ .indent m :: (t.chunks k ++ r)) (t.chunks k ++ r)
      fun bs => bs.map AnnotationUse.bare = as.map AnnotationUse.bare :=
  rereads_lineUses formed enough (bears_type t ends)
    (stops_of_front (front_type_ne_mark t (by decide)))

theorem isEmpty_of_map {α β : Type} {f : α → β} {as bs : List α} (some : as ≠ [])
    (same : bs.map f = as.map f) : bs.isEmpty = false := by
  rw [List.isEmpty_eq_false_iff]
  rintro rfl
  exact some (by simpa using same.symm)

section

variable {type : Parser TypeSpec} (types : RereadsTypes l.left type)

include types

/-- Annotations, a type and what it declares. -/
theorem rereads_member {m : Member TypeSpec} (formed : m.Formed)
    (enough : m.outline.cost ≤ l.left) :
    Rereads (member l type) (m.chunks n ++ r) r fun m' => m'.bare = m.bare := by
  obtain ⟨uses, rest⟩ := Outline.cost_beside_le.mp enough
  obtain ⟨typed, declared⟩ := Outline.cost_beside_le.mp rest
  have ends := endsType_declarators (r := .mark .semi :: .newline :: r) formed.nonempty
  refine .skipBehind ['\n'] ?_
  simp only [Member.chunks, List.append_assoc, List.cons_append, List.nil_append]
  refine rereads_here fun start => ?_
  refine (rereads_lineUses_type formed.annotations uses ends).bind fun as same => ?_
  refine (types m.type n _ formed.type typed ends).bind fun t same' => .skip ?_
  refine (rereads_declarators formed.nonempty formed.declarators declared (by simp) (by simp)).bind
    fun ds same'' => rereads_mark <| rereads_spanFrom fun span => .pure ?_
  simp only [Member.bare, same, same', same'']

theorem rereads_members {ms : List (Member TypeSpec)} (formed : ∀ m ∈ ms, m.Formed)
    (enough : (memberOutlines ms).cost ≤ l.left) (brace : front r = .punct .rightBrace) :
    Rereads (members l type) (memberChunks n ms ++ r) r
      fun ms' => ms'.map Member.bare = ms.map Member.bare := by
  have enough := cost_memberOutlines_le.mp enough
  rw [memberChunks_eq]
  refine rereads_body (fun m mem => .of_body (by simp [Member.chunks, Chunk.kinds]) (fun ds => ?_)
    fun ds => rereads_member types (formed m mem) (enough m mem)) brace
  rw [Member.chunks, List.append_assoc]
  refine front_lineUses_ne (by simp) ?_
  simpa using front_type_ne_mark m.type (by decide)

/-- What stands behind the name of a struct. -/
theorem rereads_structBody {start : Span} {name : Ident} {t : StructType TypeSpec}
    (same : name.unplaced = t.name.unplaced) (based : ∀ b ∈ t.base, b.Formed)
    (formed : ∀ m ∈ t.members, m.Formed) (enough : (memberOutlines t.members).cost ≤ l.left) :
    Rereads (structBody l type start name)
      (baseChunks t.base ++ (braced n (memberChunks (n + 4) t.members) ++ r)) r
      fun t' => t'.bare = t.bare := by
  simp only [braced, List.append_assoc, List.cons_append, List.nil_append]
  refine (rereads_base based rfl).bind fun b' same' => .skip <| rereads_mark <| .skip ?_
  refine (rereads_members types formed enough rfl).bind fun ms' same'' => .skip <| rereads_mark <|
    rereads_spanFrom fun span => .pure ?_
  simp only [StructType.bare, same, same', same'']

theorem rereads_unionCase {c : UnionCase TypeSpec} (formed : c.Formed)
    (enough : c.outline.cost ≤ l.left) :
    Rereads (unionCase l type) (c.chunks n ++ r) r fun c' => c'.bare = c.bare := by
  obtain ⟨labelled, rest⟩ := Outline.cost_beside_le.mp enough
  obtain ⟨uses, rest⟩ := Outline.cost_beside_le.mp rest
  obtain ⟨typed, declared⟩ := Outline.cost_beside_le.mp rest
  have labelled : ∀ label ∈ c.labels, label.outline.cost ≤ l.left := Outline.cost_all_le.mp labelled
  have ends : EndsType (.blank :: (c.declarator.chunks ++ .mark .semi :: .newline :: r)) :=
    endsType_ident
  refine .skipBehind ['\n'] ?_
  simp only [UnionCase.chunks, List.append_assoc, List.cons_append, List.nil_append]
  refine rereads_here fun start => ?_
  refine (rereads_many (g := CaseLabel.bare) (F := fun _ => True) (fun label mem =>
    ⟨?_, fun _ _ => trivial, fun ds _ s spelled => ?_, fun ds _ =>
      rereads_caseLabel (formed.labels label mem) (labelled label mem)⟩) trivial
      fun s spelled => ?_).bind fun labels same => ?_
  · cases label <;> simp [CaseLabel.chunks, Chunk.kinds]
  · rw [s.atKeyword_of_spelled spelled, s.atKeyword_of_spelled spelled]
    cases label <;> simp [CaseLabel.chunks]
  · have front_ne (k : Keyword) (other : k ∉ typeWords true ++ typeWords false) :
        front (lineUses (n + 4) c.annotations ++ .indent (n + 4) :: (c.type.chunks (n + 4) ++
          .blank :: (c.declarator.chunks ++ .mark .semi :: .newline :: r))) ≠ .keyword k := by
      refine front_lineUses_ne (by simp) ?_
      rw [List.mem_append, not_or] at other
      simpa using front_type_ne_word c.type (by cases c.type.isConstructed <;> simp [other])
    rw [s.atKeyword_of_spelled spelled, s.atKeyword_of_spelled spelled]
    simp [front_ne .caseKw (by decide), front_ne .default (by decide)]
  rw [isEmpty_of_map formed.nonempty same, if_neg (by simp)]
  refine (rereads_lineUses_type formed.annotations uses ends).bind fun as same' => ?_
  refine (types c.type (n + 4) _ formed.type typed ends).bind fun t same'' => .skip ?_
  refine (rereads_declarator formed.declarator declared (by simp)).bind
    fun d same''' => rereads_mark <| rereads_spanFrom fun span => .pure ?_
  simp only [UnionCase.bare, same, same', same'', same''']

/-- What stands behind the name of a union. -/
theorem rereads_unionBody {start : Span} {name : Ident} {t : UnionType TypeSpec}
    (same : name.unplaced = t.name.unplaced) (uses : ∀ a ∈ t.discriminant.annotations, a.Formed)
    (formed : t.discriminant.type.Formed) (some : t.cases ≠ []) (all : ∀ c ∈ t.cases, c.Formed)
    (enough : t.outline.cost ≤ l.left) :
    Rereads (unionBody l type start name)
      (.blank :: .word .switch :: .blank :: .mark .leftParen ::
        (inlineUses t.discriminant.annotations ++ (t.discriminant.type.chunks n ++
          .mark .rightParen :: (braced n (caseChunks (n + 4) t.cases) ++ r)))) r
      fun t' => t'.bare = t.bare := by
  obtain ⟨used, rest⟩ := Outline.cost_beside_le.mp enough
  obtain ⟨typed, cased⟩ := Outline.cost_beside_le.mp rest
  have cased := cost_caseOutlines_le.mp cased
  have ends : EndsType (.mark .rightParen :: (braced n (caseChunks (n + 4) t.cases) ++ r)) := by
    simp [EndsType]
  refine .skip <| rereads_word <| .skip <| rereads_expect.bind fun opened _ => ?_
  refine (rereads_inlineUses uses used (bears_type _ ends) (front_type_ne_mark _ (by decide))).bind
    fun as same_uses => ?_
  refine (types _ n _ formed typed ends).bind fun ty same_type => rereads_mark ?_
  simp only [braced, List.append_assoc, List.cons_append, List.nil_append, caseChunks_eq]
  refine rereads_spanFrom fun closed => .skip <| rereads_mark <| .skip ?_
  refine (rereads_body (g := UnionCase.bare) (fun c mem => .of_body ?_ (fun ds => ?_) fun ds =>
    rereads_unionCase types (all c mem) (cased c mem)) rfl).bind fun cases same_cases => ?_
  · simp [UnionCase.chunks, Chunk.kinds]
  · obtain ⟨label, labels, whole⟩ := List.exists_cons_of_ne_nil (all c mem).nonempty
    cases label <;> simp [UnionCase.chunks, whole, CaseLabel.chunks]
  rw [isEmpty_of_map some same_cases, if_neg (by simp)]
  refine .skip <| rereads_mark <| rereads_spanFrom fun span => .pure ?_
  simp only [UnionType.bare, SwitchType.bare, same, same_uses, same_type, same_cases]

end

theorem rereads_bound {b : Option ConstExpr} (formed : ∀ e ∈ b, e.Formed)
    (enough : (boundOutline b).cost ≤ l.left) (inside : l.inTemplate = true) :
    Rereads (bound? l) (boundChunks b ++ .mark .greater :: r) (.mark .greater :: r)
      fun b' => b'.map ConstExpr.unplaced = b.map ConstExpr.unplaced := by
  cases b with
  | none => exact rereads_eat_absent (by simp [boundChunks]) (.pure rfl)
  | some e =>
    have value := rereads_constExpr (r := .mark .greater :: r) (formed e rfl) enough
      (inside ▸ endsExpr_greater)
    exact rereads_eat <| .skip <| value.bind fun e' same => .pure (by simp [same])

theorem rereads_stringBound {b : Option ConstExpr} (formed : ∀ e ∈ b, e.Formed)
    (enough : (boundOutline b).cost ≤ l.left) (ends : EndsType r) :
    Rereads (stringBound? l) (textBoundChunks b ++ r) r
      fun b' => b'.map ConstExpr.unplaced = b.map ConstExpr.unplaced := by
  cases b with
  | none => exact rereads_testMark_absent (ends.front_ne (by simp)) (.pure rfl)
  | some e =>
    have value := rereads_constExpr (l := { l with inTemplate := true })
      (r := .mark .greater :: r) (formed e rfl) enough endsExpr_greater
    simp only [textBoundChunks, List.append_assoc, List.cons_append, List.nil_append]
    exact rereads_testMark <| (rereads_angled value).bind fun e' same => .pure (by simp [same])

theorem Listing.bare {word : Keyword} {make : TypeSpec → Option ConstExpr → TypeSpec}
    (template : Listing word make) (t : TypeSpec) (b : Option ConstExpr) :
    (make t b).bare = make t.bare (b.map ConstExpr.unplaced) := by
  cases template <;> rw [TypeSpec.bare]

theorem Texts.bare {word : Keyword} {make : Option ConstExpr → TypeSpec}
    (template : Texts word make) (b : Option ConstExpr) :
    (make b).bare = make (b.map ConstExpr.unplaced) := by
  cases template <;> rw [TypeSpec.bare]

section

variable {type : Bool → Parser TypeSpec}

/-- A type that begins with the word of no base type goes by this word. -/
theorem rereads_keyword {word : Keyword} {Q : TypeSpec → Prop} (other : NoBase word)
    (rereads : Rereads (keywordType l type word) (.word word :: r) ds Q) :
    Rereads (typeWith l type) (.word word :: r) ds Q :=
  rereads.congr fun s spelled => typeWith_of_keyword (s.kind_of_spelled spelled) other

theorem rereads_texts {word : Keyword} {make : Option ConstExpr → TypeSpec}
    (template : Texts word make) {b : Option ConstExpr} (formed : ∀ e ∈ b, e.Formed)
    (enough : (boundOutline b).cost ≤ l.left) (ends : EndsType r) :
    Rereads (typeWith l type) (.word word :: (textBoundChunks b ++ r)) r
      fun t => t.bare = (make b).bare := by
  have reader : keywordType l type word = (do discard bump; return make (← stringBound? l)) := by
    cases template <;> rfl
  refine rereads_keyword template.noBase ?_
  rw [reader]
  exact rereads_discardBump <| (rereads_stringBound formed enough ends).bind fun b' same =>
    .pure (by rw [template.bare, template.bare, same])

/-- The reader of the types inside reads back all that need no more levels than are left. -/
def RereadsNested (l : Level) (type : Bool → Parser TypeSpec) : Prop :=
  ∀ inTemplate, RereadsTypes l.left (type inTemplate)

theorem rereads_listing (types : RereadsNested l type) {word : Keyword}
    {make : TypeSpec → Option ConstExpr → TypeSpec} (template : Listing word make) {t : TypeSpec}
    {b : Option ConstExpr} (formed : t.Formed) (bounded : ∀ e ∈ b, e.Formed)
    (enough : (Outline.beside t.outline (boundOutline b)).cost ≤ l.left) :
    Rereads (typeWith l type)
      (.word word :: .mark .less :: (t.chunks n ++ (boundChunks b ++ .mark .greater :: r))) r
      fun t' => t'.bare = (make t b).bare := by
  have reader : keywordType l type word = (do
      discard bump
      angled l fun inner => do
        let element ← type true
        return make element (← bound? inner)) := by
    cases template <;> rfl
  have ends : EndsType (boundChunks b ++ .mark .greater :: r) := by
    cases b <;> simp [EndsType, boundChunks]
  obtain ⟨typed, bound⟩ := Outline.cost_beside_le.mp enough
  refine rereads_keyword template.noBase ?_
  rw [reader]
  refine rereads_discardBump <| rereads_angled ?_
  refine (types true t n _ formed typed ends).bind fun t' same => ?_
  refine (rereads_bound (l := { l with inTemplate := true }) bounded bound rfl).bind
    fun b' same' => .pure ?_
  rw [template.bare, template.bare, same, same']

theorem rereads_map (types : RereadsNested l type) {key value : TypeSpec} {b : Option ConstExpr}
    (keyed : key.Formed) (valued : value.Formed) (bounded : ∀ e ∈ b, e.Formed)
    (enough : (Outline.beside key.outline
      (.beside value.outline (boundOutline b))).cost ≤ l.left) :
    Rereads (typeWith l type)
      (.word .map :: .mark .less :: (key.chunks n ++ .mark .comma :: .blank :: (value.chunks n ++
        (boundChunks b ++ .mark .greater :: r)))) r
      fun t' => t'.bare = (TypeSpec.map key value b).bare := by
  have ends : EndsType (boundChunks b ++ .mark .greater :: r) := by
    cases b <;> simp [EndsType, boundChunks]
  obtain ⟨enough_key, rest⟩ := Outline.cost_beside_le.mp enough
  obtain ⟨enough_value, bound⟩ := Outline.cost_beside_le.mp rest
  refine rereads_keyword ⟨rfl, by decide, by decide⟩ <| rereads_discardBump <| rereads_angled ?_
  refine (types true key n _ keyed enough_key (by simp [EndsType])).bind fun key' same => ?_
  refine rereads_mark <| .skip ?_
  refine (types true value n _ valued enough_value ends).bind fun value' same' => ?_
  refine (rereads_bound (l := { l with inTemplate := true }) bounded bound rfl).bind
    fun b' same'' => .pure ?_
  simp only [TypeSpec.bare, same, same', same'']

theorem rereads_fixed {digits scale : ConstExpr} (formed : digits.Formed) (formed' : scale.Formed)
    (enough : (Outline.beside (.expr digits) (.expr scale)).cost ≤ l.left) :
    Rereads (typeWith l type)
      (.word .fixed :: .mark .less :: (digits.chunks ++ .mark .comma :: .blank :: (scale.chunks ++
        .mark .greater :: r))) r
      fun t' => t'.bare = (TypeSpec.fixed (some (digits, scale))).bare := by
  obtain ⟨enough, enough'⟩ := Outline.cost_beside_le.mp enough
  refine rereads_keyword ⟨rfl, by decide, by decide⟩ <| rereads_discardBump <| rereads_testMark ?_
  rw [if_pos rfl]
  let inner : Level := { l with inTemplate := true }
  refine rereads_angled ?_
  refine (rereads_constExpr (l := inner) formed enough endsExpr_comma).bind fun d same => ?_
  refine rereads_mark <| .skip ?_
  refine (rereads_constExpr (l := inner) formed' enough' endsExpr_greater).bind
    fun e same' => .pure ?_
  simp only [TypeSpec.bare, Option.map_some, same, same']

/-- A type is read back, one level above the types in it. -/
theorem rereads_typeWith (types : RereadsNested l type) :
    RereadsTypes (l.left + 1) (typeWith l type) := by
  intro t n r formed enough ends
  have enough {inside : Outline} : t.outline = .level inside → inside.cost ≤ l.left :=
    Outline.cost_inside_le enough
  match t with
  | .primitive k =>
    refine (rereads_primitive k ends).bind fun o same => ?_
    rw [same]
    exact .pure rfl
  | .named ⟨name, target⟩ =>
    obtain rfl : target = none := formed.unbound
    refine Rereads.congr ?_ fun s spelled =>
      typeWith_of_name (by rw [s.kind_of_spelled spelled]; exact front_name name _)
    exact (rereads_scopedName (ends.front_ne (by simp))).bind fun name' same =>
      .pure (by simp only [TypeSpec.bare, NamedType.bare, same])
  | .sequence element b =>
    simpa [TypeSpec.chunks] using rereads_listing types .sequence formed.1 formed.2 (enough rfl)
  | .set element b =>
    simpa [TypeSpec.chunks] using rereads_listing types .set formed.1 formed.2 (enough rfl)
  | .map key value b =>
    simpa [TypeSpec.chunks] using rereads_map types formed.1 formed.2.1 formed.2.2 (enough rfl)
  | .string b => exact rereads_texts .string formed (enough rfl) ends
  | .wstring b => exact rereads_texts .wstring formed (enough rfl) ends
  | .fixed none =>
    exact rereads_keyword ⟨rfl, by decide, by decide⟩ <| rereads_discardBump <|
      rereads_testMark_absent (ends.front_ne (by simp)) (.pure rfl)
  | .fixed (some (digits, scale)) =>
    simpa [TypeSpec.chunks] using rereads_fixed formed.1 formed.2 (enough rfl)
  | .struct ⟨name, base, fields, span⟩ =>
    obtain ⟨-, based, formed⟩ := formed
    simp only [TypeSpec.chunks, List.cons_append, List.append_assoc]
    refine rereads_keyword ⟨rfl, by decide, by decide⟩ <| rereads_bump fun word => .skip ?_
    refine rereads_ident.bind fun name' same => ?_
    refine (rereads_structBody (t := ⟨name, base, fields, span⟩) (types _) same based
      ((membersFormed_iff _).mp formed) (enough rfl)).bind fun t same' => .pure ?_
    rw [TypeSpec.bare_struct, TypeSpec.bare_struct, same']
  | .union ⟨name, ⟨as, type, span⟩, cases, span'⟩ =>
    obtain ⟨-, uses, formed, some, all⟩ := formed
    simp only [TypeSpec.chunks, List.cons_append, List.append_assoc]
    refine rereads_keyword ⟨rfl, by decide, by decide⟩ <| rereads_bump fun word => .skip ?_
    refine rereads_ident.bind fun name' same => ?_
    refine (rereads_unionBody (t := ⟨name, ⟨as, type, span⟩, cases, span'⟩) (types _) same uses
      formed some ((casesFormed_iff _).mp all) (enough rfl)).bind fun t same' => .pure ?_
    rw [TypeSpec.bare_union, TypeSpec.bare_union, same']
  | .enum t =>
    refine rereads_keyword ⟨rfl, by decide, by decide⟩ ?_
    exact (rereads_enumType formed (enough rfl)).bind fun t' same =>
      .pure (by simp only [TypeSpec.bare, same])
  | .bitset t =>
    refine rereads_keyword ⟨rfl, by decide, by decide⟩ ?_
    exact (rereads_bitsetType formed (enough rfl)).bind fun t' same =>
      .pure (by simp only [TypeSpec.bare, same])
  | .bitmask t =>
    refine rereads_keyword ⟨rfl, by decide, by decide⟩ ?_
    exact (rereads_bitmaskType formed (enough rfl)).bind fun t' same =>
      .pure (by simp only [TypeSpec.bare, same])

end

/-- A type counts as a level. -/
theorem TypeSpec.cost_pos (t : TypeSpec) : 0 < t.outline.cost := by
  match t with
  | .primitive _ | .named _ | .sequence _ _ | .set _ _ | .map _ _ _ | .string _ | .wstring _
  | .fixed none | .fixed (some (_, _)) | .struct ⟨_, _, _, _⟩ | .union ⟨_, ⟨_, _, _⟩, _, _⟩
  | .enum _ | .bitset _ | .bitmask _ => exact Nat.succ_pos _

theorem rereads_typeSpecAt {limit left : Nat} {inTemplate : Bool} :
    RereadsTypes left (typeSpecAt limit left inTemplate) := by
  induction left generalizing inTemplate with
  | zero =>
    intro t n r _ enough _
    exact absurd enough (Nat.not_le_of_lt (TypeSpec.cost_pos t))
  | succ left ih => exact rereads_typeWith (l := ⟨limit, left, inTemplate⟩) fun _ => ih

/-- A type is read back from its chunks, if there are as many levels left as it needs. -/
theorem rereads_typeSpec : RereadsTypes l.left (typeSpec l) := rereads_typeSpecAt

end Grammar

end Idl
