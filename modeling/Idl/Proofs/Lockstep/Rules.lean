import Idl.Proofs.Lockstep.Link

/-!
Readers in lockstep: the rules for failing, looking ahead, taking tokens and repeating.
-/

set_option autoImplicit false

namespace Idl.Grammar

variable {α β : Type} {m : Terms} {base : Nat} {i j : Stage} {s t : Cursor}

/-! Failures. -/

theorem Lockstep.expected (what : String) :
    Lockstep (α := α) m i j (Grammar.expected what) (Grammar.expected what) := by
  intro base s t link
  rw [Grammar.expected, Grammar.expected, link.ahead.peek]
  exact .fails link _

theorem Lockstep.failed {what : String} {f g : α → Parser β} :
    Lockstep m i j (Grammar.expected what >>= f) (Grammar.expected what >>= g) := by
  intro base s t link
  have agrees := Lockstep.expected (α := β) (m := m) (i := i) (j := j) what base s t link
  exact agrees

/-- The limits are the same, or else the second one is higher, and nothing is said once the first
is reached. -/
def Within (m : Terms) (limit left limit' left' : Nat) : Prop :=
  (limit' = limit ∧ left' = left) ∨ (left ≤ left' ∧ ∀ span, m.hit (.tooDeep limit span))

theorem Within.down {limit left limit' left' : Nat}
    (within : Within m limit (left + 1) limit' left') :
    ∃ less, left' = less + 1 ∧ Within m limit left limit' less := by
  rcases within with ⟨same, rfl⟩ | ⟨le, hit⟩
  · exact ⟨left, rfl, .inl ⟨same, rfl⟩⟩
  · obtain ⟨less, rfl⟩ : ∃ less, left' = less + 1 := ⟨left' - 1, by omega⟩
    exact ⟨less, rfl, .inr ⟨by omega, hit⟩⟩

/-- The first reader is at its limit. -/
theorem Lockstep.tooDeep {limit limit' left' : Nat} {q : Parser α}
    (within : Within m limit 0 limit' left') (last : left' = 0 → q = Grammar.tooDeep limit') :
    Lockstep m i j (Grammar.tooDeep limit) q := by
  intro base s t link
  rcases within with ⟨same, none⟩ | ⟨-, hit⟩
  · rw [last none, same, Grammar.tooDeep, Grammar.tooDeep, link.ahead.peek]
    exact .fails link _
  · exact .lostError (.refl s) (Nat.le_of_add_right_le link.above) (.inl (hit _))

/-! Looking ahead. -/

/-- What the readers see decides the test. -/
def Respects {δ : Type} (f : Cursor → δ) : Prop := ∀ ⦃s t⦄, Ahead s t → f t = f s

theorem respects_at? (mark : Punct) : Respects (·.at? mark) := fun _ _ ahead => ahead.at? mark

theorem respects_atClose : Respects atClose := fun _ _ ahead => by
  rw [atClose, atClose, ahead.at?, ahead.atEnd]

theorem Respects.not {f : Cursor → Bool} (respects : Respects f) : Respects fun s => !f s :=
  fun _ _ ahead => by dsimp only; rw [respects ahead]

theorem LockstepAt.kind {k k' : TokenKind → Parser α}
    (rest : LockstepAt m base i j s t (k s.kind) (k' s.kind)) :
    LockstepAt m base i j s t (Grammar.kind >>= k) (Grammar.kind >>= k') := by
  intro link
  have agrees := rest link
  rw [bind_apply, bind_apply, Grammar.kind, Grammar.kind, link.ahead.kind]
  exact agrees

theorem LockstepAt.test {f : Cursor → Bool} {k k' : Bool → Parser α} (respects : Respects f)
    (rest : LockstepAt m base i j s t (k (f s)) (k' (f s))) :
    LockstepAt m base i j s t (Grammar.test f >>= k) (Grammar.test f >>= k') := by
  intro link
  have agrees := rest link
  rw [bind_apply, bind_apply, Grammar.test, Grammar.test, respects link.ahead]
  exact agrees

theorem Lockstep.test {f : Cursor → Bool} {k k' : Bool → Parser α} (respects : Respects f)
    (rest : ∀ b, Lockstep m i j (k b) (k' b)) :
    Lockstep m i j (Grammar.test f >>= k) (Grammar.test f >>= k') :=
  fun base s t => .test respects (rest _ base s t)

theorem Lockstep.here {k k' : Span → Parser α} (rest : ∀ span, Lockstep m i j (k span) (k' span)) :
    Lockstep m i j (Grammar.here >>= k) (Grammar.here >>= k') := by
  intro base s t link
  rw [bind_apply, bind_apply, Grammar.here, Grammar.here, link.ahead.peek]
  exact rest _ base s t link

theorem Lockstep.spanFrom {start : Span} {k k' : Span → Parser α}
    (rest : ∀ span, Lockstep m i.take j (k span) (k' span)) :
    Lockstep m i.take j (Grammar.spanFrom start >>= k) (Grammar.spanFrom start >>= k') := by
  intro base s t link
  rw [bind_apply, bind_apply, Grammar.spanFrom, Grammar.spanFrom, Cursor.spanFrom, Cursor.spanFrom,
    link.previous rfl]
  exact rest _ base s t link

/-- The end of readers that note where they end. -/
theorem Lockstep.spanned {start : Span} {f : Span → α} :
    Lockstep m i.take i.take (Grammar.spanFrom start >>= fun span => Pure.pure (f span))
      (Grammar.spanFrom start >>= fun span => Pure.pure (f span)) :=
  .spanFrom fun span => .pure (f span)

/-! Taking tokens. -/

theorem LockstepAt.bump (plain : Plain s.kind) :
    LockstepAt m base i i.take s t Grammar.bump Grammar.bump := by
  intro link
  have present := Cursor.present_of_kind plain.present
  rw [Grammar.bump, Grammar.bump, link.ahead.peek]
  exact link.bump present plain.inner (by rw [plain.depthAfter, link.braces present])

theorem Cursor.at?_iff {s : Cursor} {mark : Punct} :
    s.at? mark = true ↔ s.kind = .punct mark := beq_iff_eq

theorem Cursor.atKeyword_iff {s : Cursor} {word : Keyword} :
    s.atKeyword word = true ↔ s.kind = .keyword word := beq_iff_eq

theorem lockstep_eat {mark : Punct} (plain : Plain (.punct mark)) :
    Lockstep m i i (eat mark) (eat mark) := by
  intro base s t link
  rw [eat, eat, link.ahead.at?]
  split
  · next here =>
    rw [← Cursor.at?_iff.mp here] at plain
    exact ((LockstepAt.bump plain).keep link).returns true
  · exact .stays link false

theorem lockstep_eatKeyword (word : Keyword) :
    Lockstep m i i (eatKeyword word) (eatKeyword word) := by
  intro base s t link
  rw [eatKeyword, eatKeyword, link.ahead.atKeyword]
  split
  · next here =>
    have plain : Plain s.kind := by rw [Cursor.atKeyword_iff.mp here]; exact .keyword word
    exact ((LockstepAt.bump plain).keep link).returns true
  · exact .stays link false

theorem lockstep_expectKeyword (word : Keyword) :
    Lockstep m i i.take (expectKeyword word) (expectKeyword word) := by
  intro base s t link
  rw [expectKeyword, expectKeyword, link.ahead.atKeyword]
  split
  · next here =>
    have plain : Plain s.kind := by rw [Cursor.atKeyword_iff.mp here]; exact .keyword word
    rw [link.ahead.peek]
    exact (LockstepAt.bump plain link).returns _
  · exact Lockstep.expected _ base s t link

/-- A mark that takes what is read from one depth of braces to another. -/
theorem lockstep_mark {mark : Punct}
    (inner : mark = .semi ∨ mark = .rightBrace → m.inner ∨ 0 < i.depth)
    (depth : ∀ base (t : Token), t.kind = .punct mark →
      depthAfter (base + i.depth) t = base + j.depth) :
    Lockstep m i j (expect mark) (expect mark) := by
  intro base s t link
  rw [expect, expect, link.ahead.at?]
  split
  · next here =>
    have kind := Cursor.at?_iff.mp here
    have present : s.rest ≠ [] := Cursor.present_of_kind (by simp [kind])
    rw [link.ahead.peek]
    refine (link.bump present (fun either => ?_) ?_).returns _
    · rw [kind, TokenKind.punct.injEq, TokenKind.punct.injEq] at either
      rw [link.braces present]
      rcases inner either with inner | open'
      · have := link.inner inner
        omega
      · omega
    · rw [link.braces present]
      exact depth base s.peek kind
  · exact Lockstep.expected _ base s t link

theorem lockstep_expect {mark : Punct} (plain : Plain (.punct mark)) :
    Lockstep m i i.take (expect mark) (expect mark) :=
  lockstep_mark (fun either => either.elim (fun eq => absurd (congrArg _ eq) plain.semi)
    fun eq => absurd (congrArg _ eq) plain.rightBrace)
    fun _ t kind => Plain.depthAfter (by rw [kind]; exact plain) _

theorem lockstep_semi {taken : Bool} {depth : Nat} (inner : m.inner ∨ 0 < depth) :
    Lockstep m ⟨taken, depth⟩ ⟨true, depth⟩ (expect .semi) (expect .semi) :=
  lockstep_mark (fun _ => inner) fun _ t kind => by simp [depthAfter, kind]

theorem lockstep_leftBrace : Lockstep m i i.opened (expect .leftBrace) (expect .leftBrace) :=
  lockstep_mark (fun either => either.elim nofun nofun) fun base t kind => by
    simp [depthAfter, kind, Nat.add_assoc]

theorem lockstep_rightBrace {taken : Bool} {depth : Nat} :
    Lockstep m ⟨taken, depth + 1⟩ ⟨true, depth⟩ (expect .rightBrace) (expect .rightBrace) :=
  lockstep_mark (fun _ => .inr (Nat.succ_pos _)) fun base t kind => by
    simp [depthAfter, kind, ← Nat.add_assoc]

theorem Lockstep.discard {p q : Parser α} (lockstep : Lockstep m i j p q) :
    Lockstep m i j (discard p) (discard q) := lockstep.map

end Idl.Grammar
