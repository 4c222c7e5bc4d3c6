import Idl.Proofs.Lockstep.Repeat

/-!
Readers that succeed on tokens that are known. What stands behind the tokens is left alone. Main
statements: `Accepts.bind` and `accepts_many`.
-/

set_option autoImplicit false

namespace Idl

def TokenKind.IsBrace (k : TokenKind) : Prop := k = .punct .leftBrace ∨ k = .punct .rightBrace

namespace Grammar

variable {α β : Type}

/-- A reader took just the tokens `ts`, none of them a brace, and found nothing to report. -/
structure Passed (s s' : Cursor) (ts : List Token) : Prop where
  rest : s.rest = ts ++ s'.rest
  ending : s'.ending = s.ending
  braces : s'.braces = s.braces
  errors : s'.errors = s.errors
  /-- Each operator that was counted is one of the tokens. -/
  operators : s'.operators ≤ s.operators + ts.length

namespace Passed

variable {s t u : Cursor} {ts us : List Token}

theorem refl (s : Cursor) : Passed s s [] := ⟨rfl, rfl, rfl, rfl, Nat.le_refl _⟩

theorem trans (first : Passed s t ts) (second : Passed t u us) : Passed s u (ts ++ us) where
  rest := by rw [first.rest, second.rest, List.append_assoc]
  ending := second.ending.trans first.ending
  braces := second.braces.trans first.braces
  errors := second.errors.trans first.errors
  operators := by
    have one := first.operators
    have two := second.operators
    rw [List.length_append]
    omega

/-- What is left behind the tokens. -/
theorem left (passed : Passed s t ts) (rest : s.rest = ts ++ us) : t.rest = us :=
  List.append_cancel_left (passed.rest.symm.trans rest)

theorem shorter (passed : Passed s t ts) (some : ts ≠ []) : t.rest.length < s.rest.length := by
  have positive := List.length_pos_of_ne_nil some
  rw [passed.rest, List.length_append]
  omega

end Passed

/-- At `s`, the reader takes just the tokens `ts`, and `Q` holds of what it returns. -/
def Accepts (p : Parser α) (s : Cursor) (ts : List Token) (Q : α → Prop) : Prop :=
  ∃ a s', p s = .ok a s' ∧ Passed s s' ts ∧ Q a

section

variable {s : Cursor} {ts us : List Token} {p : Parser α} {k : α → Parser β}
  {P Q : α → Prop} {R : β → Prop}

namespace Accepts

theorem pure {a : α} (holds : Q a) : Accepts (Pure.pure a) s [] Q := ⟨a, s, rfl, .refl s, holds⟩

theorem bind (first : Accepts p s ts P)
    (second : ∀ a t, Passed s t ts → P a → Accepts (k a) t us R) :
    Accepts (p >>= k) s (ts ++ us) R := by
  obtain ⟨a, t, read, passed, holds⟩ := first
  obtain ⟨b, u, read', passed', holds'⟩ := second a t passed holds
  refine ⟨b, u, ?_, passed.trans passed', holds'⟩
  rw [bind_apply, read]
  exact read'

/-- Nothing is taken behind. -/
theorem bindPure (first : Accepts p s ts P)
    (second : ∀ a t, Passed s t ts → P a → Accepts (k a) t [] R) :
    Accepts (p >>= k) s ts R := by
  have both := first.bind second
  rwa [List.append_nil] at both

theorem imp (accepts : Accepts p s ts P) (imp : ∀ a, P a → Q a) : Accepts p s ts Q := by
  obtain ⟨a, t, read, passed, holds⟩ := accepts
  exact ⟨a, t, read, passed, imp a holds⟩

/-- Only what the reader does at `s` counts. -/
theorem congr {q : Parser α} (accepts : Accepts p s ts Q) (same : q s = p s) :
    Accepts q s ts Q := by
  obtain ⟨a, t, read, passed, holds⟩ := accepts
  exact ⟨a, t, same.trans read, passed, holds⟩

theorem map {f : α → β} (accepts : Accepts p s ts fun a => R (f a)) : Accepts (f <$> p) s ts R := by
  have unfolded : f <$> p = p >>= fun a => Pure.pure (f a) := rfl
  rw [unfolded]
  exact accepts.bindPure fun _ _ _ holds => .pure holds

theorem discard (accepts : Accepts p s ts P) : Accepts (discard p) s ts fun _ => True :=
  (accepts.imp fun _ _ => trivial).map

end Accepts

/-! Looking ahead. -/

theorem accepts_here : Accepts here s [] fun _ => True := ⟨_, s, rfl, .refl s, trivial⟩

theorem accepts_spanFrom (start : Span) : Accepts (spanFrom start) s [] fun _ => True :=
  ⟨_, s, rfl, .refl s, trivial⟩

/-- A test that is known decides how the reader goes on. -/
theorem accepts_test {test : Cursor → Bool} {k : Bool → Parser β} {b : Bool} (known : test s = b)
    (second : Accepts (k b) s us R) : Accepts (Grammar.test test >>= k) s us R := by
  refine second.congr ?_
  rw [bind_apply, Grammar.test, known]

/-! Taking a token. -/

variable {t : Token} {rest : List Token}

theorem passed_bump (next : s.rest = t :: rest) (plain : ¬ t.kind.IsBrace) :
    Passed s s.bump [t] := by
  rw [Cursor.bump_of_rest next]
  refine ⟨next, rfl, ?_, rfl, Nat.le_add_right _ _⟩
  rw [depthAfter, if_neg fun left => plain (.inl left), if_neg fun right => plain (.inr right)]

theorem accepts_bump (next : s.rest = t :: rest) (plain : ¬ t.kind.IsBrace) :
    Accepts bump s [t] (· = t) :=
  ⟨_, _, rfl, passed_bump next plain, Cursor.peek_of_rest next⟩

/-- Behind a token that is taken whatever it is. -/
theorem accepts_past {a : α} (taken : p s = .ok a s.bump) (next : s.rest = t :: rest)
    (plain : ¬ t.kind.IsBrace) (second : Accepts (k a) s.bump us R) :
    Accepts (p >>= k) s (t :: us) R := by
  obtain ⟨b, u, read, passed, holds⟩ := second
  refine ⟨b, u, ?_, (passed_bump next plain).trans passed, holds⟩
  rw [bind_apply, taken]
  exact read

theorem accepts_expect {mark : Punct} (next : s.rest = t :: rest) (kind : t.kind = .punct mark)
    (plain : ¬ t.kind.IsBrace) : Accepts (expect mark) s [t] fun _ => True := by
  refine ⟨s.peek.span, _, ?_, passed_bump next plain, trivial⟩
  rw [expect, if_pos (Cursor.at?_iff.mpr ((Cursor.kind_of_rest next).trans kind))]

theorem accepts_expectKeyword {word : Keyword} (next : s.rest = t :: rest)
    (kind : t.kind = .keyword word) : Accepts (expectKeyword word) s [t] fun _ => True := by
  refine ⟨s.peek.span, _, ?_, passed_bump next (by simp [TokenKind.IsBrace, kind]), trivial⟩
  rw [expectKeyword, if_pos (Cursor.atKeyword_iff.mpr ((Cursor.kind_of_rest next).trans kind))]

theorem accepts_eat {mark : Punct} (next : s.rest = t :: rest) (kind : t.kind = .punct mark)
    (plain : ¬ t.kind.IsBrace) : Accepts (eat mark) s [t] (· = true) := by
  refine ⟨_, _, ?_, passed_bump next plain, rfl⟩
  rw [eat, if_pos (Cursor.at?_iff.mpr ((Cursor.kind_of_rest next).trans kind))]

theorem accepts_eat_absent {mark : Punct} (other : s.kind ≠ .punct mark) :
    Accepts (eat mark) s [] (· = false) := by
  refine ⟨_, _, ?_, .refl s, rfl⟩
  rw [eat, if_neg (Cursor.at?_iff.not.mpr other)]

/-- A keyword is taken, and the reader goes on. -/
theorem accepts_afterKeyword {word : Keyword} {k : Bool → Parser β} (next : s.rest = t :: rest)
    (kind : t.kind = .keyword word) (second : Accepts (k true) s.bump us R) :
    Accepts (eatKeyword word >>= k) s (t :: us) R :=
  accepts_past (if_pos (Cursor.atKeyword_iff.mpr ((Cursor.kind_of_rest next).trans kind))) next
    (by simp [TokenKind.IsBrace, kind]) second

/-- A keyword is absent, and the reader goes on. -/
theorem accepts_withoutKeyword {word : Keyword} {k : Bool → Parser β}
    (other : s.kind ≠ .keyword word) (second : Accepts (k false) s us R) :
    Accepts (eatKeyword word >>= k) s us R := by
  refine second.congr ?_
  rw [bind_apply, eatKeyword, if_neg (Cursor.atKeyword_iff.not.mpr other)]

/-! Repeating. -/

theorem accepts_none {stop : Cursor → Bool} {item : Parser α} (stopped : stop s = true) :
    Accepts (many stop item) s [] (· = []) := by
  refine ⟨[], s, ?_, .refl s, rfl⟩
  rw [many_eq, if_pos stopped]

/-- Items are read one after the other, up to where the reader stops. Each is of one group of the
tokens. -/
theorem accepts_many {ι : Type} {stop : Cursor → Bool} {item : Parser α}
    {Spells : ι → List Token → Prop} {Q : ι → α → Prop}
    (reads : ∀ i group s more, Spells i group → s.rest = group ++ more →
      group ≠ [] ∧ stop s = false ∧ Accepts item s group (Q i))
    (stops : ∀ s, s.rest = rest → stop s = true) {is : List ι} {groups : List (List Token)}
    (spelled : List.Forall₂ Spells is groups) (next : s.rest = groups.flatten ++ rest) :
    Accepts (many stop item) s groups.flatten fun as => List.Forall₂ Q is as := by
  induction spelled generalizing s with
  | nil =>
    refine ⟨[], s, ?_, .refl s, .nil⟩
    rw [many_eq, if_pos (stops s next)]
  | @cons i group is groups first _ ih =>
    rw [List.flatten_cons, List.append_assoc] at next
    obtain ⟨some, going, a, t, read, passed, holds⟩ := reads i group s _ first next
    obtain ⟨as, u, read', passed', holds'⟩ := ih (passed.left next)
    refine ⟨a :: as, u, ?_, passed.trans passed', .cons holds holds'⟩
    rw [many_eq, if_neg (by simp [going]), read]
    simp only [if_pos (passed.shorter some), read']
    rfl

end

end Grammar

end Idl
