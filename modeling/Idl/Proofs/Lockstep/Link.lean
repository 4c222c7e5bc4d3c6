import Idl.Proofs.Lockstep.Walk

/-!
Two readers side by side, each over its own tokens. They see the same ahead, so they go in
lockstep: they take the same tokens, report the same errors and return the same. Main statements:
`Ahead.onward` and `Lockstep.bind`.
-/

set_option autoImplicit false

namespace Idl.Grammar

variable {α β : Type}

/-- The readers see the same tokens: all that are left, or else those up to the semicolon that ends
the statement that the first one is in. -/
inductive Ahead (s t : Cursor) : Prop
  | whole (rest : t.rest = s.rest) (ending : t.ending = s.ending)
  | statement {before left right : List Token} {semi : Token}
      (front : s.rest = before ++ semi :: left) (front' : t.rest = before ++ semi :: right)
      (ends : semi.kind = .punct .semi) (walk : Walk s.braces before 0)

/-- A reader took tokens and reported errors. -/
structure Onward (s s' : Cursor) (used : List Token) (new : List SyntaxError) : Prop where
  rest : s.rest = used ++ s'.rest
  walk : Walk s.braces used s'.braces
  errors : s'.errors = s.errors ++ new
  ending : s'.ending = s.ending

/-- What is known of two readers between two steps. -/
structure Stage where
  /-- The token taken last is the same. -/
  taken : Bool
  /-- Braces that are open in what is being read. -/
  depth : Nat

/-- What is known all along. -/
structure Terms where
  /-- Errors after which nothing is said of the second reader. -/
  hit : SyntaxError → Prop
  /-- The readers count the same operators. -/
  counted : Prop
  /-- What is being read stands inside of braces. -/
  inner : Prop

/-- Two readers at one stage, with `base` braces open around what is being read. At the end of the
tokens more braces may be open. -/
structure Link (m : Terms) (base : Nat) (i : Stage) (s t : Cursor) : Prop where
  ahead : Ahead s t
  same : t.braces = s.braces
  above : base + i.depth ≤ s.braces
  braces : s.rest ≠ [] → s.braces = base + i.depth
  previous : i.taken = true → t.previous = s.previous
  operators : m.counted → t.operators = s.operators
  inner : m.inner → 0 < base

/-- What two readers give that set out from `s` and `t`. -/
inductive Agrees (m : Terms) (base : Nat) (j : Stage) (s t : Cursor) : Outcome α → Outcome α → Prop
  | ok {a : α} {s' t' : Cursor} {used : List Token} {new : List SyntaxError}
      (left : Onward s s' used new) (right : Onward t t' used new) (link : Link m base j s' t') :
      Agrees m base j s t (.ok a s') (.ok a t')
  | error {e : SyntaxError} {s' t' : Cursor} {used : List Token} {new : List SyntaxError}
      (left : Onward s s' used new) (right : Onward t t' used new) (same : t'.braces = s'.braces)
      (above : base ≤ s'.braces) (operators : m.counted → t'.operators = s'.operators) :
      Agrees m base j s t (.error e s') (.error e t')
  | lostOk {a : α} {s' : Cursor} {r : Outcome α} {used : List Token} {new : List SyntaxError}
      (left : Onward s s' used new) (link : Link m base j s' s') (lost : ∃ e ∈ s'.errors, m.hit e) :
      Agrees m base j s t (.ok a s') r
  | lostError {e : SyntaxError} {s' : Cursor} {r : Outcome α} {used : List Token}
      {new : List SyntaxError} (left : Onward s s' used new) (above : base ≤ s'.braces)
      (lost : m.hit e ∨ ∃ e ∈ s'.errors, m.hit e) : Agrees m base j s t (.error e s') r

/-- From `s` and `t` at the stage `i`, the readers go in lockstep to the stage `j`. -/
def LockstepAt (m : Terms) (base : Nat) (i j : Stage) (s t : Cursor) (p q : Parser α) : Prop :=
  Link m base i s t → Agrees m base j s t (p s) (q t)

/-- The readers do so from anywhere. -/
def Lockstep (m : Terms) (i j : Stage) (p q : Parser α) : Prop :=
  ∀ base s t, LockstepAt m base i j s t p q

namespace Stage

/-- A token is taken. -/
abbrev take (i : Stage) : Stage := ⟨true, i.depth⟩

/-- A brace is opened. -/
abbrev opened (i : Stage) : Stage := ⟨true, i.depth + 1⟩

end Stage

/-! What the readers see. -/

namespace Ahead

variable {s t : Cursor}

theorem refl (s : Cursor) : Ahead s s := .whole rfl rfl

/-- They see the same after they took the same tokens. -/
theorem onward {s' t' : Cursor} {used : List Token} {new : List SyntaxError} (ahead : Ahead s t)
    (left : Onward s s' used new) (right : Onward t t' used new) : Ahead s' t' := by
  cases ahead with
  | whole rest ending =>
    refine .whole ?_ ?_
    · rw [left.rest, right.rest] at rest
      exact List.append_cancel_left rest
    · rw [left.ending, right.ending, ending]
  | statement front front' ends walk =>
    rw [left.rest] at front
    rw [right.rest] at front'
    obtain ⟨more, before, rest, walk'⟩ := left.walk.split ends walk front.symm
    rw [before, List.append_assoc] at front'
    exact .statement rest (List.append_cancel_left front') ends walk'

/-- A place ahead holds the same token for both, unless a semicolon stands before it. -/
theorem nth {n : Nat} (ahead : Ahead s t)
    (before : ∀ k < n, (s.nth k).kind ≠ .punct .semi) : t.nth n = s.nth n := by
  cases ahead with
  | whole rest ending => rw [Cursor.nth, Cursor.nth, rest, ending]
  | @statement front left right semi eq eq' ends walk =>
    have here : s.nth front.length = semi := Cursor.nth_eq (by rw [eq]; simp)
    have small : n ≤ front.length :=
      Nat.le_of_not_lt fun far => before _ far (by rw [here, ends])
    have same : t.rest[n]? = s.rest[n]? := by
      rw [eq, eq', List.append_cons, List.append_cons front semi left]
      have inside : n < (front ++ [semi]).length := by rw [List.length_append]; simp; omega
      rw [List.getElem?_append_left inside, List.getElem?_append_left inside]
    have inside : n < s.rest.length := by rw [eq, List.length_append, List.length_cons]; omega
    rw [Cursor.nth, Cursor.nth, same, List.getElem?_eq_getElem inside, Option.getD_some,
      Option.getD_some]

theorem peek (ahead : Ahead s t) : t.peek = s.peek := ahead.nth fun _ none => absurd none (by omega)

theorem kind (ahead : Ahead s t) : t.kind = s.kind := congrArg Token.kind ahead.peek

theorem at? (ahead : Ahead s t) (mark : Punct) : t.at? mark = s.at? mark := by
  rw [Cursor.at?, Cursor.at?, ahead.kind]

theorem atKeyword (ahead : Ahead s t) (word : Keyword) : t.atKeyword word = s.atKeyword word := by
  rw [Cursor.atKeyword, Cursor.atKeyword, ahead.kind]

theorem second (ahead : Ahead s t) (first : s.kind ≠ .punct .semi) : t.nth 1 = s.nth 1 :=
  ahead.nth fun k small => by
    obtain rfl : k = 0 := by omega
    exact first

theorem atEnd (ahead : Ahead s t) : t.atEnd = s.atEnd := by
  cases ahead with
  | whole rest ending => rw [Cursor.atEnd, Cursor.atEnd, rest]
  | statement front front' ends walk =>
    rw [Cursor.atEnd, Cursor.atEnd, front, front', List.isEmpty_eq_false_iff.mpr (by simp),
      List.isEmpty_eq_false_iff.mpr (by simp)]

theorem rest_ne (ahead : Ahead s t) (some : s.rest ≠ []) : t.rest ≠ [] := by
  intro none
  have end' : t.atEnd = true := by rw [Cursor.atEnd, none, List.isEmpty_nil]
  rw [ahead.atEnd, Cursor.atEnd, List.isEmpty_iff] at end'
  exact some end'

theorem cons {u : Token} {us : List Token} (ahead : Ahead s t) (rest : s.rest = u :: us) :
    ∃ vs, t.rest = u :: vs := by
  cases rest' : t.rest with
  | nil => exact absurd rest' (ahead.rest_ne (Cursor.present_of_rest rest))
  | cons v vs =>
    have same := ahead.peek
    rw [Cursor.peek_of_rest rest, Cursor.peek_of_rest rest'] at same
    exact ⟨vs, by rw [same]⟩

end Ahead

namespace Onward

variable {s s' s'' : Cursor} {used more : List Token} {new others : List SyntaxError}

theorem refl (s : Cursor) : Onward s s [] [] where
  rest := rfl
  walk := .nil _
  errors := (List.append_nil _).symm
  ending := rfl

theorem trans (first : Onward s s' used new) (second : Onward s' s'' more others) :
    Onward s s'' (used ++ more) (new ++ others) where
  rest := by rw [first.rest, second.rest, List.append_assoc]
  walk := first.walk.append second.walk
  errors := by rw [second.errors, first.errors, List.append_assoc]
  ending := second.ending.trans first.ending

/-- The error that ended it is reported. -/
theorem report (onward : Onward s s' used new) (e : SyntaxError) :
    Onward s (s'.report e) used (new ++ [e]) where
  rest := onward.rest
  walk := onward.walk
  errors := by rw [← List.append_assoc, ← onward.errors]; rfl
  ending := onward.ending

/-- What ended it was lost on the second reader, or was before. -/
theorem lost_report {m : Terms} {e : SyntaxError} (lost : m.hit e ∨ ∃ e ∈ s.errors, m.hit e) :
    ∃ e' ∈ (s.report e).errors, m.hit e' := by
  rcases lost with hit | ⟨e', mem, hit⟩
  · exact ⟨e, List.mem_append_right _ (List.mem_singleton_self e), hit⟩
  · exact ⟨e', List.mem_append_left _ mem, hit⟩

/-- What was reported stays reported. -/
theorem lost {m : Terms} (onward : Onward s s' used new) (lost : ∃ e ∈ s.errors, m.hit e) :
    ∃ e ∈ s'.errors, m.hit e := by
  obtain ⟨e, mem, hit⟩ := lost
  exact ⟨e, by rw [onward.errors]; exact List.mem_append_left _ mem, hit⟩

/-- One token is taken. -/
theorem bump (present : s.rest ≠ [])
    (inner : s.kind = .punct .semi ∨ s.kind = .punct .rightBrace → 0 < s.braces) :
    Onward s s.bump [s.peek] [] := by
  cases rest : s.rest with
  | nil => exact absurd rest present
  | cons t ts =>
    rw [Cursor.kind_of_rest rest] at inner
    rw [Cursor.peek_of_rest rest, Cursor.bump_of_rest rest]
    exact ⟨rest, .single inner, (List.append_nil _).symm, rfl⟩

end Onward

theorem braces_bump {s : Cursor} (present : s.rest ≠ []) :
    s.bump.braces = depthAfter s.braces s.peek := by
  cases rest : s.rest with
  | nil => exact absurd rest present
  | cons t ts => rw [Cursor.bump_of_rest rest, Cursor.peek_of_rest rest]

theorem previous_bump {s : Cursor} (present : s.rest ≠ []) : s.bump.previous = s.peek.span := by
  cases rest : s.rest with
  | nil => exact absurd rest present
  | cons t ts => rw [Cursor.bump_of_rest rest, Cursor.peek_of_rest rest]

theorem operators_bump (s : Cursor) : s.bump.operators = s.operators := by
  rw [Cursor.bump]
  split <;> rfl

theorem errors_bump (s : Cursor) : s.bump.errors = s.errors := by
  rw [Cursor.bump]
  split <;> rfl

/-! Links. -/

namespace Link

variable {m : Terms} {base : Nat} {i j : Stage} {s t : Cursor}

theorem self (link : Link m base i s t) : Link m base i s s where
  ahead := .refl s
  same := rfl
  above := link.above
  braces := link.braces
  previous _ := rfl
  operators _ := rfl
  inner := link.inner

theorem loosen (link : Link m base i s t) (taken : j.taken = true → i.taken = true)
    (depth : j.depth = i.depth) : Link m base j s t :=
  { link with
    above := by rw [depth]; exact link.above
    braces := fun some => by rw [link.braces some, depth]
    previous := fun eq => link.previous (taken eq) }

theorem untaken (link : Link m base i s t) : Link m base ⟨false, i.depth⟩ s t :=
  link.loosen nofun rfl

/-- Both take the token that is next. -/
theorem bump (link : Link m base i s t) (present : s.rest ≠ [])
    (inner : s.kind = .punct .semi ∨ s.kind = .punct .rightBrace → 0 < s.braces)
    (braces : depthAfter s.braces s.peek = base + j.depth) :
    Agrees m base j s t (.ok s.peek s.bump) (.ok s.peek t.bump) := by
  have present' := link.ahead.rest_ne present
  have left := Onward.bump present inner
  have right : Onward t t.bump [s.peek] [] := by
    rw [← link.ahead.peek]
    exact Onward.bump present' (by rw [link.ahead.kind, link.same]; exact inner)
  refine .ok left right ⟨link.ahead.onward left right, ?_, ?_, ?_, ?_, ?_, link.inner⟩
  · rw [braces_bump present, braces_bump present', link.ahead.peek, link.same]
  · rw [braces_bump present, braces]
  · intro _
    rw [braces_bump present, braces]
  · intro _
    rw [previous_bump present, previous_bump present', link.ahead.peek]
  · intro counted
    rw [operators_bump, operators_bump, link.operators counted]

end Link

/-! Outcomes. -/

/-- Something is made of what is returned. -/
def Outcome.made (f : α → β) : Outcome α → Outcome β
  | .ok a s => .ok (f a) s
  | .error e s => .error e s

namespace Agrees

variable {m : Terms} {base : Nat} {i j : Stage} {s t s' t' : Cursor} {r r' : Outcome α}
  {used : List Token} {new : List SyntaxError}

/-- Nothing happens. -/
theorem stays (link : Link m base i s t) (a : α) : Agrees m base i s t (.ok a s) (.ok a t) :=
  .ok (.refl s) (.refl t) link

theorem fails (link : Link m base i s t) (e : SyntaxError) :
    Agrees (α := α) m base j s t (.error e s) (.error e t) :=
  .error (.refl s) (.refl t) link.same (Nat.le_of_add_right_le link.above) link.operators

/-- The readers have gone on from where they set out. -/
theorem after (agrees : Agrees m base j s' t' r r') (left : Onward s s' used new)
    (right : Onward t t' used new) : Agrees m base j s t r r' := by
  cases agrees with
  | ok left' right' link => exact .ok (left.trans left') (right.trans right') link
  | error left' right' same above operators =>
    exact .error (left.trans left') (right.trans right') same above operators
  | lostOk left' link lost => exact .lostOk (left.trans left') link lost
  | lostError left' above lost => exact .lostError (left.trans left') above lost

/-- Once nothing is said of the second reader, it may give anything. -/
theorem lose {r'' : Outcome α} (agrees : Agrees m base j s' t' r r')
    (lost : ∃ e ∈ s'.errors, m.hit e) (left : Onward s s' used new) :
    Agrees m base j s t r r'' := by
  cases agrees with
  | ok left' right' link => exact .lostOk (left.trans left') link.self (left'.lost lost)
  | error left' right' same above operators =>
    exact .lostError (left.trans left') above (.inr (left'.lost lost))
  | lostOk left' link lost' => exact .lostOk (left.trans left') link lost'
  | lostError left' above lost' => exact .lostError (left.trans left') above lost'

/-- Reading goes on from where a step has ended, which may have been on other terms. -/
theorem goOn {m' : Terms} {base' : Nat} {b c : β} {u v : Cursor} {r : Outcome α}
    {f : Cursor → Outcome α} (agrees : Agrees m' base' i s t (.ok c u) (.ok b v))
    (hit : m'.hit = m.hit)
    (next : ∀ v, Link m' base' i u v → Agrees m base j u v r (f v)) :
    Agrees m base j s t r (f v) := by
  cases agrees with
  | ok left right link => exact (next v link).after left right
  | lostOk left link lost => exact (next u link).lose (hit ▸ lost) left

theorem loosen (agrees : Agrees m base i s t r r') (taken : j.taken = true → i.taken = true)
    (depth : j.depth = i.depth) : Agrees m base j s t r r' := by
  cases agrees with
  | ok left right link => exact .ok left right (link.loosen taken depth)
  | error left right same above operators => exact .error left right same above operators
  | lostOk left link lost => exact .lostOk left (link.loosen taken depth) lost
  | lostError left above lost => exact .lostError left above lost

/-- The step fails in the end. -/
theorem failing {a a' : α} {u u' : Cursor} (e : SyntaxError)
    (agrees : Agrees m base j s t (.ok a u) (.ok a' u')) :
    Agrees (α := β) m base j s t (.error e u) (.error e u') := by
  cases agrees with
  | ok left right link =>
    exact .error left right link.same (Nat.le_of_add_right_le link.above) link.operators
  | lostOk left link lost =>
    exact .lostError left (Nat.le_of_add_right_le link.above) (.inr lost)

theorem made (f : α → β) (agrees : Agrees m base j s t r r') :
    Agrees m base j s t (r.made f) (r'.made f) := by
  cases agrees with
  | ok left right link => exact .ok left right link
  | error left right same above operators => exact .error left right same above operators
  | lostOk left link lost => exact .lostOk left link lost
  | lostError left above lost => exact .lostError left above lost

/-- Something else is returned. -/
theorem returns {a a' : α} {u u' : Cursor} (b : β)
    (agrees : Agrees m base j s t (.ok a u) (.ok a' u')) :
    Agrees m base j s t (.ok b u) (.ok b u') := by
  cases agrees with
  | ok left right link => exact .ok left right link
  | lostOk left link lost => exact .lostOk left link lost

end Agrees

/-! Sequences. -/

section

variable {m : Terms} {base : Nat} {i j k : Stage} {s t : Cursor} {p q : Parser α}
  {f g : α → Parser β}

theorem LockstepAt.bind (first : LockstepAt m base i j s t p q)
    (second : ∀ a, Lockstep m j k (f a) (g a)) :
    LockstepAt m base i k s t (p >>= f) (q >>= g) := by
  intro link
  have agrees := first link
  rw [bind_apply, bind_apply]
  generalize p s = r, q t = r' at agrees
  cases agrees with
  | ok left right link => exact (second _ base _ _ link).after left right
  | error left right same above operators => exact .error left right same above operators
  | lostOk left link lost => exact (second _ base _ _ link).lose lost left
  | lostError left above lost => exact .lostError left above lost

theorem Lockstep.bind (first : Lockstep m i j p q) (second : ∀ a, Lockstep m j k (f a) (g a)) :
    Lockstep m i k (p >>= f) (q >>= g) :=
  fun base s t => (first base s t).bind second

theorem Lockstep.pure (a : α) : Lockstep m i i (Pure.pure a) (Pure.pure a) :=
  fun _ _ _ link => .stays link a

theorem Lockstep.loosen (lockstep : Lockstep m i j p q) (taken : k.taken = true → j.taken = true)
    (depth : k.depth = j.depth) : Lockstep m i k p q :=
  fun base s t link => (lockstep base s t link).loosen taken depth

/-- What takes a token may be where nothing needs to be taken. -/
theorem Lockstep.keep (lockstep : Lockstep m i i.take p q) : Lockstep m i i p q :=
  lockstep.loosen (fun _ => rfl) rfl

theorem LockstepAt.keep (lockstep : LockstepAt m base i i.take s t p q) :
    LockstepAt m base i i s t p q :=
  fun link => (lockstep link).loosen (fun _ => rfl) rfl

theorem Lockstep.map {h : α → β} (lockstep : Lockstep m i j p q) :
    Lockstep m i j (h <$> p) (h <$> q) :=
  lockstep.bind fun a => .pure (h a)

theorem LockstepAt.map {h : α → β} (lockstep : LockstepAt m base i j s t p q) :
    LockstepAt m base i j s t (h <$> p) (h <$> q) :=
  lockstep.bind fun a => .pure (h a)

end

end Idl.Grammar
