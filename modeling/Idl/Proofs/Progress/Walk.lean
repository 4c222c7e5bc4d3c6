import Idl.Proofs.Lockstep.Repeat
import Idl.Proofs.Spans.Walk

/-!
Readers pay for what they report. Each error takes a token of its own, beside the first one of the
item it was met in, and a literal is refused only for its lexeme. So an item that is read takes a
token, and one that is abandoned does so too. Main statements: `Spends.bind`, `Spent.resume` and
`paid_itemList`.
-/

set_option autoImplicit false

namespace Idl

/-- If the error refuses a literal, the literal is one of the tokens, and has no value of its
kind. -/
def SyntaxError.Blames (ts : List Token) : SyntaxError → Prop
  | .badLiteral t reason =>
    t ∈ ts ∧ ∃ k, t.kind = .literal k ∧ Lexeme.fault? k t.lexeme.toList = some reason
  | _ => True

theorem SyntaxError.Blames.mono {ts us : List Token} {e : SyntaxError} (blames : e.Blames ts)
    (sub : ts ⊆ us) : e.Blames us := by
  cases e with
  | badLiteral t reason => exact ⟨sub blames.1, blames.2⟩
  | expected | tooDeep => trivial

namespace Grammar

variable {α β : Type}

/-- Between `s` and `t` the tokens `used` were taken and the errors `new` reported: no more of them
than tokens, and fewer where no token of the item was taken before. -/
structure Spent (taken : Bool) (s t : Cursor) (used : List Token) (new : List SyntaxError) :
    Prop where
  rest : s.rest = used ++ t.rest
  errors : t.errors = s.errors ++ new
  count : new.length ≤ used.length - (!taken).toNat
  blames : ∀ e ∈ new, e.Blames used

/-- What a reader leaves that set out from `s` at the stage `i`: something of which `Q` holds, with
a token taken at the stage `j`, or an error. -/
inductive Leaves (i j : Bool) (Q : α → Prop) (s : Cursor) : Outcome α → Prop
  | ok {a : α} {t : Cursor} {used : List Token} {new : List SyntaxError} (holds : Q a)
      (spent : Spent i s t used new) (taken : j = true → i = true ∨ used ≠ []) :
      Leaves i j Q s (.ok a t)
  | error {e : SyntaxError} {t : Cursor} {used : List Token} {new : List SyntaxError}
      (spent : Spent i s t used new) (blames : e.Blames used) : Leaves i j Q s (.error e t)

/-- From `s` at the stage `i`, the reader goes on to the stage `j`, and `Q` holds of what it
returns. -/
def SpendsAt (i j : Bool) (s : Cursor) (p : Parser α) (Q : α → Prop) : Prop :=
  Leaves i j Q s (p s)

/-- The reader does so from anywhere. -/
def Spends (i j : Bool) (p : Parser α) (Q : α → Prop) : Prop := ∀ s, SpendsAt i j s p Q

/-! Tokens and errors between cursors. -/

namespace Spent

variable {i j : Bool} {s t u : Cursor} {used more : List Token} {new other : List SyntaxError}

theorem refl (i : Bool) (s : Cursor) : Spent i s s [] [] :=
  ⟨rfl, (List.append_nil _).symm, Nat.zero_le _, List.forall_mem_nil _⟩

theorem weaken (spent : Spent false s t used new) (i : Bool) : Spent i s t used new :=
  { spent with count := spent.count.trans (Nat.sub_le_sub_left (!i).toNat_le _) }

theorem loosen (spent : Spent i s t used new) : Spent true s t used new :=
  { spent with count := spent.count.trans (Nat.sub_le _ _) }

theorem shorter (spent : Spent i s t used new) (some : used ≠ []) :
    t.rest.length < s.rest.length := by
  rw [spent.rest, List.length_append]
  exact Nat.lt_add_of_pos_left (List.length_pos_of_ne_nil some)

/-- An error was paid for. -/
theorem ne_nil_of_error {e : SyntaxError} (spent : Spent i s t used (new ++ [e])) : used ≠ [] := by
  have count := spent.count.trans (Nat.sub_le _ _)
  rw [List.length_append, List.length_singleton] at count
  exact List.ne_nil_of_length_pos (by omega)

theorem append (first : Spent i s t used new) (taken : j = true → i = true ∨ used ≠ [])
    (second : Spent j t u more other) : Spent i s u (used ++ more) (new ++ other) where
  rest := by rw [first.rest, second.rest, List.append_assoc]
  errors := by rw [second.errors, first.errors, List.append_assoc]
  count := by
    have left := first.count
    have right := second.count
    rw [List.length_append, List.length_append]
    cases i with
    | true => exact Nat.add_le_add left (right.trans (Nat.sub_le _ _))
    | false =>
      rw [Bool.not_false, Bool.toNat_true] at left ⊢
      cases j with
      | false =>
        rw [Bool.not_false, Bool.toNat_true] at right
        omega
      | true =>
        -- the second reader spends every token it takes, and the first one has spared one
        have spared := List.length_pos_of_ne_nil ((taken rfl).resolve_left nofun)
        rw [Bool.not_true, Bool.toNat_false] at right
        omega
  blames e mem := by
    rcases List.mem_append.mp mem with mem | mem
    · exact (first.blames e mem).mono (List.subset_append_left _ _)
    · exact (second.blames e mem).mono (List.subset_append_right _ _)

/-- Tokens that are passed over. -/
theorem pass (spent : Spent i s t used new) (rest : t.rest = more ++ u.rest)
    (errors : u.errors = t.errors) : Spent i s u (used ++ more) new where
  rest := by rw [spent.rest, rest, List.append_assoc]
  errors := errors.trans spent.errors
  count := spent.count.trans (Nat.sub_le_sub_right
    (by rw [List.length_append]; exact Nat.le_add_right _ _) _)
  blames e mem := (spent.blames e mem).mono (List.subset_append_left _ _)

theorem bump (i : Bool) (s : Cursor) : ∃ used, Spent i s s.bump used [] := by
  obtain ⟨used, rest⟩ := bump_takes s
  exact ⟨used, rest, by rw [errors_bump, List.append_nil], Nat.zero_le _, List.forall_mem_nil _⟩

theorem take (i : Bool) (present : s.rest ≠ []) : Spent i s s.bump [s.peek] [] := by
  obtain ⟨t, ts, rest⟩ := List.exists_cons_of_ne_nil present
  refine ⟨?_, by rw [errors_bump, List.append_nil], Nat.zero_le _, List.forall_mem_nil _⟩
  rw [Cursor.rest_bump, Cursor.peek_of_rest rest, rest, List.tail_cons, List.singleton_append]

end Spent

/-! Abandoned items. -/

theorem Cursor.errors_recover (depth : Nat) (s : Cursor) : (s.recover depth).errors = s.errors := by
  fun_induction Cursor.recover depth s with
  | case1 s none => rfl
  | case2 s t ts rest ends => exact errors_bump s
  | case3 s t ts rest going closes => rfl
  | case4 s t ts rest going open' ih => rw [ih, errors_bump]

section

variable {s t failed : Cursor} {e : SyntaxError} {used more : List Token}
  {new : List SyntaxError}

/-- A token taken since the item began pays for its error. -/
theorem Spent.abandon (spent : Spent false s failed used new) (blames : e.Blames used)
    (rest : failed.rest = more ++ t.rest) (errors : t.errors = (failed.report e).errors)
    (shorter : t.rest.length < s.rest.length) :
    Spent true s t (used ++ more) (new ++ [e]) where
  rest := by rw [spent.rest, rest, List.append_assoc]
  errors := by
    rw [errors, ← List.append_assoc, ← spent.errors]
    rfl
  count := by
    have count := spent.count
    have length := congrArg List.length (spent.rest.trans (congrArg (used ++ ·) rest))
    simp only [Bool.not_false, Bool.not_true, Bool.toNat_true, Bool.toNat_false,
      List.length_append, List.length_singleton] at count length ⊢
    omega
  blames d mem := by
    rcases List.mem_append.mp mem with mem | mem
    · exact (spent.blames d mem).mono (List.subset_append_left _ _)
    · exact List.mem_singleton.mp mem ▸ blames.mono (List.subset_append_left _ _)

/-- Past the statement of an import that failed. -/
theorem Spent.recover (spent : Spent false s failed used new) (blames : e.Blames used)
    (present : s.rest ≠ []) :
    ∃ more, Spent true s ((failed.report e).recover 0) more (new ++ [e]) := by
  obtain ⟨more, rest⟩ := recover_takes 0 (failed.report e)
  refine ⟨used ++ more, spent.abandon blames rest (Cursor.errors_recover _ _) ?_⟩
  have length := congrArg List.length spent.rest
  rw [List.length_append] at length
  by_cases none : failed.rest = []
  · have stays : (failed.report e).recover 0 = failed.report e :=
      Cursor.recover_nil (s := failed.report e) none 0
    rw [stays]
    exact (congrArg List.length none).trans_lt (List.length_pos_of_ne_nil present)
  · have some : (failed.report e).rest ≠ [] := none
    have shorter : ((failed.report e).recover 0).rest.length < failed.rest.length :=
      Cursor.length_recover some (.inr rfl)
    omega

/-- To the next item of a list, behind one that failed. -/
theorem Spent.resume (spent : Spent false s failed used new) (blames : e.Blames used)
    (present : s.rest ≠ []) :
    ∃ more, Spent true s (resume s e failed) more (new ++ [e]) := by
  obtain ⟨more, rest⟩ := resume_takes s e failed
  have length := congrArg List.length spent.rest
  rw [List.length_append] at length
  have le : ((failed.report e).recover s.braces).rest.length ≤ failed.rest.length :=
    Cursor.length_recover_le s.braces (failed.report e)
  refine ⟨used ++ more, spent.abandon blames rest ?_ ?_⟩
  · rw [Grammar.resume]
    split
    · rw [errors_bump, Cursor.errors_recover]
    · rw [Cursor.errors_recover]
  · rw [Grammar.resume]
    split
    · next stays =>
      have some : ((failed.report e).recover s.braces).rest ≠ [] := by
        intro none
        rw [none] at stays
        exact present (List.length_eq_zero_iff.mp stays.symm)
      exact (Cursor.length_bump some).trans_eq stays
    · next moves => omega

end

/-- Between `s` and `t` each of `n` items took a token of its own, and so did each error. -/
def Paid (n : Nat) (s t : Cursor) : Prop :=
  ∃ used new, Spent true s t used new ∧ n + new.length ≤ used.length

namespace Paid

variable {n : Nat} {s t u : Cursor} {used : List Token} {new : List SyntaxError}

theorem refl (s : Cursor) : Paid 0 s s := ⟨[], [], .refl true s, Nat.le_refl 0⟩

/-- An item in front. -/
theorem item (rest : Paid n t u) (spent : Spent false s t used new) (some : used ≠ []) :
    Paid (n + 1) s u := by
  obtain ⟨more, other, after, count⟩ := rest
  refine ⟨used ++ more, new ++ other, spent.loosen.append (fun _ => .inl rfl) after, ?_⟩
  have first : new.length ≤ used.length - 1 := spent.count
  have present := List.length_pos_of_ne_nil some
  rw [List.length_append, List.length_append]
  omega

/-- Errors in front. -/
theorem error (rest : Paid n t u) (spent : Spent true s t used new) : Paid n s u := by
  obtain ⟨more, other, after, count⟩ := rest
  refine ⟨used ++ more, new ++ other, spent.append (fun _ => .inl rfl) after, ?_⟩
  have first : new.length ≤ used.length := spent.count
  rw [List.length_append, List.length_append]
  omega

theorem append {m : Nat} (first : Paid m s t) (second : Paid n t u) : Paid (m + n) s u := by
  obtain ⟨used, new, spent, count⟩ := first
  obtain ⟨more, other, after, count'⟩ := second
  refine ⟨used ++ more, new ++ other, spent.append (fun _ => .inl rfl) after, ?_⟩
  rw [List.length_append, List.length_append]
  omega

end Paid

/-! Rules. -/

section

variable {i j : Bool} {s : Cursor} {p : Parser α} {k : α → Parser β} {Q : α → Prop} {R : β → Prop}

/-- What is left behind a reader that went on to the stage `i`. -/
theorem Leaves.after {i' : Bool} {t : Cursor} {used : List Token} {new : List SyntaxError}
    {r : Outcome β} (leaves : Leaves i' j R t r) (spent : Spent i s t used new)
    (taken : i' = true → i = true ∨ used ≠ []) : Leaves i j R s r := by
  cases leaves with
  | ok holds more taken' =>
    refine .ok holds (spent.append taken more) fun next => ?_
    rcases taken' next with next | some
    · exact (taken next).imp_right (List.append_ne_nil_of_left_ne_nil · _)
    · exact .inr (List.append_ne_nil_of_right_ne_nil _ some)
  | error more blames =>
    exact .error (spent.append taken more) (blames.mono (List.subset_append_right _ _))

namespace SpendsAt

theorem weaken {Q' : α → Prop} (spends : SpendsAt i j s p Q) (imp : ∀ a, Q a → Q' a) :
    SpendsAt i j s p Q' := by
  rw [SpendsAt] at spends ⊢
  generalize p s = r at spends
  cases spends with
  | ok holds spent taken => exact .ok (imp _ holds) spent taken
  | error spent blames => exact .error spent blames

/-- What else is known of what is returned. -/
theorem and {Q' : α → Prop} (spends : SpendsAt i j s p Q)
    (also : ∀ a t, p s = .ok a t → Q' a) : SpendsAt i j s p fun a => Q a ∧ Q' a := by
  rw [SpendsAt] at spends ⊢
  generalize p s = r at spends also
  cases spends with
  | ok holds spent taken => exact .ok ⟨holds, also _ _ rfl⟩ spent taken
  | error spent blames => exact .error spent blames

/-- A reader that returned something has taken a token. -/
theorem of_ok (spends : SpendsAt false true s p Q) {a : α} {t : Cursor} (read : p s = .ok a t) :
    Q a ∧ ∃ used new, Spent false s t used new ∧ used ≠ [] := by
  rw [SpendsAt, read] at spends
  cases spends with
  | ok holds spent taken => exact ⟨holds, _, _, spent, (taken rfl).resolve_left nofun⟩

theorem of_error (spends : SpendsAt i j s p Q) {e : SyntaxError} {t : Cursor}
    (failed : p s = .error e t) : ∃ used new, Spent i s t used new ∧ e.Blames used := by
  rw [SpendsAt, failed] at spends
  cases spends with
  | error spent blames => exact ⟨_, _, spent, blames⟩

/-- Where a list goes on, a token of the item that failed is behind. -/
theorem resumes (spends : SpendsAt false j s p Q) (present : s.rest ≠ []) {e : SyntaxError}
    {t : Cursor} (failed : p s = .error e t) :
    ∃ used new, Spent true s (resume s e t) used new ∧ used ≠ [] := by
  obtain ⟨used, new, spent, blames⟩ := spends.of_error failed
  obtain ⟨more, passed⟩ := spent.resume blames present
  exact ⟨more, _, passed, passed.ne_nil_of_error⟩

/-- What follows a token that was taken. -/
theorem bind (first : SpendsAt i true s p Q) (second : ∀ a, Q a → Spends true j (k a) R) :
    SpendsAt i j s (p >>= k) R := by
  rw [SpendsAt] at first ⊢
  rw [bind_apply]
  generalize p s = r at first
  cases first with
  | error spent blames => exact .error spent blames
  | @ok a t _ _ holds spent taken => exact (second a holds t).after spent taken

/-- What follows where a token need not have been taken. -/
theorem seek (first : SpendsAt i i s p Q) (second : ∀ a, Q a → Spends i j (k a) R) :
    SpendsAt i j s (p >>= k) R := by
  rw [SpendsAt] at first ⊢
  rw [bind_apply]
  generalize p s = r at first
  cases first with
  | error spent blames => exact .error spent blames
  | @ok a t _ _ holds spent taken => exact (second a holds t).after spent .inl

/-- What takes a token may be where nothing needs to be taken. -/
theorem keep (spends : SpendsAt i true s p Q) : SpendsAt i i s p Q := by
  rw [SpendsAt] at spends ⊢
  generalize p s = r at spends
  cases spends with
  | ok holds spent taken => exact .ok holds spent .inl
  | error spent blames => exact .error spent blames

theorem map {f : α → β} (spends : SpendsAt i true s p fun a => R (f a)) :
    SpendsAt i true s (f <$> p) R :=
  spends.bind fun _ holds t => .ok holds (.refl true t) fun _ => .inl rfl

theorem discard (spends : SpendsAt i true s p Q) :
    SpendsAt i true s (discard p) fun _ => True :=
  map (spends.weaken fun _ _ => trivial)

theorem kind {k : TokenKind → Parser β} (rest : SpendsAt i j s (k s.kind) R) :
    SpendsAt i j s (Grammar.kind >>= k) R := rest

theorem test {f : Cursor → Bool} {k : Bool → Parser β} (rest : SpendsAt i j s (k (f s)) R) :
    SpendsAt i j s (Grammar.test f >>= k) R := rest

theorem expected (what : String) : SpendsAt i j s (Grammar.expected what) Q :=
  .error (.refl i s) trivial

theorem bump (present : s.kind ≠ .eof) : SpendsAt i true s Grammar.bump fun _ => True :=
  .ok trivial (.take i (Cursor.present_of_kind present)) fun _ => .inr (List.cons_ne_nil _ _)

end SpendsAt

namespace Spends

theorem weaken {Q' : α → Prop} (spends : Spends i j p Q) (imp : ∀ a, Q a → Q' a) :
    Spends i j p Q' := fun s => (spends s).weaken imp

theorem and {Q' : α → Prop} (spends : Spends i j p Q)
    (also : ∀ s a t, p s = .ok a t → Q' a) : Spends i j p fun a => Q a ∧ Q' a :=
  fun s => (spends s).and (also s)

theorem bind (first : Spends i true p Q) (second : ∀ a, Q a → Spends true j (k a) R) :
    Spends i j (p >>= k) R := fun s => (first s).bind second

theorem seek (first : Spends i i p Q) (second : ∀ a, Q a → Spends i j (k a) R) :
    Spends i j (p >>= k) R := fun s => (first s).seek second

theorem keep (spends : Spends i true p Q) : Spends i i p Q := fun s => (spends s).keep

theorem map {f : α → β} (spends : Spends i true p fun a => R (f a)) : Spends i true (f <$> p) R :=
  fun s => (spends s).map

/-- Whatever is returned, nothing is said of it. -/
theorem free (spends : Spends i j p Q) : Spends i j p fun _ => True :=
  spends.weaken fun _ _ => trivial

theorem discard (spends : Spends i true p Q) : Spends i true (discard p) fun _ => True :=
  fun s => (spends s).discard

theorem pure {a : α} (holds : Q a) : Spends i i (Pure.pure a) Q :=
  fun s => .ok holds (.refl i s) .inl

/-- What follows a value that is there already. -/
theorem given {a : α} (rest : Spends i j (k a) R) : Spends i j (Pure.pure a >>= k) R := rest

theorem expected (what : String) : Spends i j (Grammar.expected what) Q := fun _ => .expected what

/-- Nothing follows what is not there. -/
theorem failed {what : String} : Spends i j (Grammar.expected what >>= k) R :=
  fun s => .error (.refl i s) trivial

theorem tooDeep (limit : Nat) : Spends i j (Grammar.tooDeep limit) Q :=
  fun s => .error (.refl i s) trivial

theorem test {f : Cursor → Bool} {k : Bool → Parser β} (rest : ∀ b, Spends i j (k b) R) :
    Spends i j (Grammar.test f >>= k) R := fun s => .test (rest _ s)

theorem branch {b : Bool} {p q : Parser α} (yes : Spends i j p Q) (no : Spends i j q Q) :
    Spends i j (if b then p else q) Q := by
  cases b with
  | true => exact yes
  | false => exact no

theorem here {k : Span → Parser β} (rest : ∀ span, Spends i j (k span) R) :
    Spends i j (Grammar.here >>= k) R := fun s => rest _ s

theorem spanFrom {start : Span} {k : Span → Parser β} (rest : ∀ span, Spends i j (k span) R) :
    Spends i j (Grammar.spanFrom start >>= k) R := fun s => rest _ s

/-- The end of readers that note where they end. -/
theorem spanned {start : Span} {f : Span → β} (holds : ∀ span, R (f span)) :
    Spends i i (Grammar.spanFrom start >>= fun span => Pure.pure (f span)) R :=
  spanFrom fun span => .pure (holds span)

end Spends

end

/-! Taking tokens. -/

section

variable {i : Bool}

theorem spends_eat (mark : Punct) : Spends i i (eat mark) fun _ => True := by
  intro s
  rw [SpendsAt, eat]
  split
  · obtain ⟨used, spent⟩ := Spent.bump i s
    exact .ok trivial spent .inl
  · exact .ok trivial (.refl i s) .inl

theorem spends_eatKeyword (word : Keyword) : Spends i i (eatKeyword word) fun _ => True := by
  intro s
  rw [SpendsAt, eatKeyword]
  split
  · obtain ⟨used, spent⟩ := Spent.bump i s
    exact .ok trivial spent .inl
  · exact .ok trivial (.refl i s) .inl

theorem spends_expect (mark : Punct) : Spends i true (expect mark) fun _ => True := by
  intro s
  rw [SpendsAt, expect]
  split
  · next next =>
    exact .ok trivial (.take i (present_of_at? next)) fun _ => .inr (List.cons_ne_nil _ _)
  · exact .error (.refl i s) trivial

theorem spends_expectKeyword (word : Keyword) :
    Spends i true (expectKeyword word) fun _ => True := by
  intro s
  rw [SpendsAt, expectKeyword]
  split
  · next next =>
    exact .ok trivial (.take i (present_of_atKeyword next)) fun _ => .inr (List.cons_ne_nil _ _)
  · exact .error (.refl i s) trivial

end

/-! Repetition. -/

section

variable {i : Bool} {item : Parser α} {Q : α → Prop}

/-- The items of a loop take a token each. -/
theorem spends_manyWhile (stop : Cursor → Bool)
    (spends : ∀ s, stop s = false → SpendsAt false true s item Q) :
    Spends i i (many stop item) fun as => ∀ a ∈ as, Q a := by
  intro s
  change Leaves i i _ s (many stop item s)
  fun_induction many stop item s with
  | case1 s stopped => exact .ok (by simp) (.refl i s) .inl
  | case2 s going e t failed =>
    obtain ⟨used, new, spent, blames⟩ := (spends s (Bool.not_eq_true _ ▸ going)).of_error failed
    exact .error (spent.weaken i) blames
  | case3 s going a t read shorter more u rest ih =>
    obtain ⟨holds, used, new, spent, -⟩ := (spends s (Bool.not_eq_true _ ▸ going)).of_ok read
    rw [rest] at ih
    cases ih with
    | ok all spent' _ =>
      exact .ok (List.forall_mem_cons.mpr ⟨holds, all⟩) ((spent.weaken i).append .inl spent') .inl
  | case4 s going a t read shorter e u failed ih =>
    obtain ⟨-, used, new, spent, -⟩ := (spends s (Bool.not_eq_true _ ▸ going)).of_ok read
    rw [failed] at ih
    exact ih.after (spent.weaken i) .inl
  | case5 s going a t read longer =>
    obtain ⟨-, used, new, spent, some⟩ := (spends s (Bool.not_eq_true _ ▸ going)).of_ok read
    exact absurd (spent.shorter some) longer

theorem spends_many (stop : Cursor → Bool) (spends : Spends false true item Q) :
    Spends i i (many stop item) fun as => ∀ a ∈ as, Q a :=
  spends_manyWhile stop fun s _ => spends s

theorem spends_manyAfter (mark : Punct) (spends : Spends true true item Q) :
    Spends i i (manyAfter mark item) fun as => ∀ a ∈ as, Q a :=
  spends_many _ ((spends_expect mark).discard.bind fun _ _ => spends)

theorem spends_commaList (spends : ∀ i, Spends i true item Q) :
    Spends i true (commaList item) fun as => ∀ a ∈ as, Q a :=
  (spends i).bind fun _ first => (spends_manyAfter .comma (spends true)).bind fun _ rest =>
    .pure (List.forall_mem_cons.mpr ⟨first, rest⟩)

/-- The items of a list go on until `stop` holds. -/
theorem paid_itemList (stop : Cursor → Bool) (closed : ∀ s, stop s = false → s.rest ≠ [])
    (spends : Spends false true item Q) (s : Cursor) :
    Paid (itemList stop item s).1.length s (itemList stop item s).2 ∧
      (∀ a ∈ (itemList stop item s).1, Q a) ∧ stop (itemList stop item s).2 = true := by
  fun_induction itemList stop item s with
  | case1 s stopped => exact ⟨.refl s, List.forall_mem_nil _, stopped⟩
  | case2 s going a t read shorter more u rest ih =>
    obtain ⟨holds, used, new, spent, some⟩ := (spends s).of_ok read
    rw [rest] at ih
    exact ⟨ih.1.item spent some, List.forall_mem_cons.mpr ⟨holds, ih.2.1⟩, ih.2.2⟩
  | case3 s going a t read longer =>
    obtain ⟨-, used, new, spent, some⟩ := (spends s).of_ok read
    exact absurd (spent.shorter some) longer
  | case4 s going e failed read t shorter ih =>
    obtain ⟨used, new, spent, -⟩ :=
      (spends s).resumes (closed s (Bool.not_eq_true _ ▸ going)) read
    exact ⟨ih.1.error spent, ih.2⟩
  | case5 s going e failed read t longer =>
    obtain ⟨used, new, spent, some⟩ :=
      (spends s).resumes (closed s (Bool.not_eq_true _ ▸ going)) read
    exact absurd (spent.shorter some) longer

theorem rest_ne_of_atClose {s : Cursor} (going : atClose s = false) : s.rest ≠ [] := by
  rw [atClose, Bool.or_eq_false_iff, Cursor.atEnd, List.isEmpty_eq_false_iff] at going
  exact going.2

/-- A body stands behind a token of the item it belongs to. -/
theorem spends_bodyItems (spends : Spends false true item Q) :
    Spends true true (bodyItems item) fun as => ∀ a ∈ as, Q a := by
  intro s
  obtain ⟨⟨used, new, spent, -⟩, all, -⟩ :=
    paid_itemList atClose (fun _ => rest_ne_of_atClose) spends s
  exact .ok all spent fun _ => .inl rfl

end

end Grammar

end Idl
