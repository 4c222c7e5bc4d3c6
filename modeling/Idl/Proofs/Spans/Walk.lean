import Idl.Proofs.Lockstep.Walk

/-!
Readers keep to good places. Where the tokens stand at good places, so do the errors of a reader,
and what it returns. Places are good ones of a predicate, and what covers two good places is one.
Main statements: `Places.bind` and `places_bodyItems`.
-/

set_option autoImplicit false

namespace Idl.Grammar

variable {α β : Type} {P : Span → Prop}

/-- All that a reader knows of places is good; so is the place of the token taken last, once it is
`taken` from these. -/
structure Good (P : Span → Prop) (taken : Bool) (s : Cursor) : Prop where
  rest : ∀ t ∈ s.rest, P t.span
  ending : P s.ending
  errors : ∀ e ∈ s.errors, P e.span
  previous : taken = true → P s.previous

/-- What a reader leaves that set out at the stage `i`: something of which `Q` holds at the stage
`j`, or an error. -/
inductive Yields (P : Span → Prop) (i j : Bool) (Q : α → Prop) : Outcome α → Prop
  | ok {a : α} {t : Cursor} (holds : Q a) (good : Good P j t) : Yields P i j Q (.ok a t)
  | error {e : SyntaxError} {t : Cursor} (place : P e.span) (good : Good P i t) :
      Yields P i j Q (.error e t)

/-- From `s` at the stage `i`, the reader keeps to good places up to the stage `j`. -/
def PlacesAt (P : Span → Prop) (i j : Bool) (s : Cursor) (p : Parser α) (Q : α → Prop) : Prop :=
  Good P i s → Yields P i j Q (p s)

/-- The reader does so from anywhere. -/
def Places (P : Span → Prop) (i j : Bool) (p : Parser α) (Q : α → Prop) : Prop :=
  ∀ s, PlacesAt P i j s p Q

/-! Cursors. -/

namespace Good

variable {i : Bool} {s : Cursor}

theorem weaken (good : Good P true s) (i : Bool) : Good P i s :=
  { good with previous := fun _ => good.previous rfl }

/-- Nothing is known of the token taken last. -/
theorem nth (good : Good P i s) (n : Nat) : P (s.nth n).span := by
  rw [Cursor.nth]
  cases at' : s.rest[n]? with
  | none => exact good.ending
  | some t => exact good.rest t (List.mem_of_getElem? at')

theorem peek (good : Good P i s) : P s.peek.span := good.nth 0

theorem bump (good : Good P i s) : Good P i s.bump := by
  cases rest : s.rest with
  | nil =>
    have stays : s.bump = s := by
      rw [Cursor.bump]
      split
      · rfl
      · next some => rw [rest] at some; cases some
    rwa [stays]
  | cons t ts =>
    have all := good.rest
    rw [rest, List.forall_mem_cons] at all
    rw [Cursor.bump_of_rest rest]
    exact ⟨all.2, good.ending, good.errors, fun _ => all.1⟩

/-- Past a token that is there. -/
theorem take (good : Good P i s) (present : s.rest ≠ []) : Good P true s.bump := by
  refine { good.bump with previous := fun _ => ?_ }
  cases rest : s.rest with
  | nil => exact absurd rest present
  | cons t ts =>
    rw [Cursor.bump_of_rest rest]
    exact good.rest t (by rw [rest]; exact List.mem_cons_self)

theorem report {e : SyntaxError} (good : Good P i s) (place : P e.span) : Good P i (s.report e) :=
  { good with
    errors := List.forall_mem_append.mpr
      ⟨good.errors, fun _ mem => List.mem_singleton.mp mem ▸ place⟩ }

theorem recover (good : Good P i s) (depth : Nat) : Good P i (s.recover depth) := by
  fun_induction Cursor.recover depth s with
  | case1 s none => exact good
  | case2 s t ts rest ends => exact good.bump
  | case3 s t ts rest going closes => exact good
  | case4 s t ts rest going open' ih => exact ih good.bump

theorem resume {e : SyntaxError} {failed : Cursor} (good : Good P i failed) (place : P e.span)
    (s : Cursor) : Good P i (resume s e failed) := by
  have recovered := (good.report place).recover s.braces
  rw [Grammar.resume]
  split
  · exact recovered.bump
  · exact recovered

end Good

/-! Rules. -/

section

variable {i j : Bool} {s : Cursor} {p : Parser α} {k : α → Parser β} {Q : α → Prop} {R : β → Prop}

namespace PlacesAt

theorem weaken {Q' : α → Prop} (places : PlacesAt P i j s p Q) (imp : ∀ a, Q a → Q' a) :
    PlacesAt P i j s p Q' := by
  intro good
  have yields := places good
  generalize p s = r at yields
  cases yields with
  | ok holds good => exact .ok (imp _ holds) good
  | error place good => exact .error place good

/-- What follows a token that was taken. -/
theorem bind (first : PlacesAt P i true s p Q)
    (second : ∀ a, Q a → Places P true j (k a) R) : PlacesAt P i j s (p >>= k) R := by
  intro good
  have yields := first good
  rw [bind_apply]
  generalize p s = r at yields
  cases yields with
  | error place good => exact .error place good
  | @ok a t holds good =>
    have yields := second a holds t good
    dsimp only
    generalize k a t = r at yields
    cases yields with
    | ok holds good => exact .ok holds good
    | error place good => exact .error place (good.weaken i)

/-- What follows where a token need not have been taken. -/
theorem seek (first : PlacesAt P i i s p Q) (second : ∀ a, Q a → Places P i j (k a) R) :
    PlacesAt P i j s (p >>= k) R := by
  intro good
  have yields := first good
  rw [bind_apply]
  generalize p s = r at yields
  cases yields with
  | error place good => exact .error place good
  | @ok a t holds good => exact second a holds t good

/-- What takes a token may be where nothing needs to be taken. -/
theorem keep (places : PlacesAt P i true s p Q) : PlacesAt P i i s p Q := by
  intro good
  have yields := places good
  generalize p s = r at yields
  cases yields with
  | ok holds good => exact .ok holds (good.weaken i)
  | error place good => exact .error place good

theorem map {f : α → β} (places : PlacesAt P i true s p fun a => R (f a)) :
    PlacesAt P i true s (f <$> p) R :=
  places.bind fun _ holds _ good => .ok holds good

theorem discard (places : PlacesAt P i true s p Q) :
    PlacesAt P i true s (discard p) fun _ => True :=
  map (places.weaken fun _ _ => trivial)

theorem kind {k : TokenKind → Parser β} (rest : PlacesAt P i j s (k s.kind) R) :
    PlacesAt P i j s (Grammar.kind >>= k) R := rest

theorem test {f : Cursor → Bool} {k : Bool → Parser β} (rest : PlacesAt P i j s (k (f s)) R) :
    PlacesAt P i j s (Grammar.test f >>= k) R := rest

theorem expected (what : String) : PlacesAt P i j s (Grammar.expected what) Q :=
  fun good => .error good.peek good

theorem bump (present : s.kind ≠ .eof) : PlacesAt P i true s Grammar.bump fun t => P t.span :=
  fun good => .ok good.peek (good.take (Cursor.present_of_kind present))

end PlacesAt

namespace Places

theorem weaken {Q' : α → Prop} (places : Places P i j p Q) (imp : ∀ a, Q a → Q' a) :
    Places P i j p Q' := fun s => (places s).weaken imp

theorem bind (first : Places P i true p Q) (second : ∀ a, Q a → Places P true j (k a) R) :
    Places P i j (p >>= k) R := fun s => (first s).bind second

theorem seek (first : Places P i i p Q) (second : ∀ a, Q a → Places P i j (k a) R) :
    Places P i j (p >>= k) R := fun s => (first s).seek second

theorem keep (places : Places P i true p Q) : Places P i i p Q := fun s => (places s).keep

theorem map {f : α → β} (places : Places P i true p fun a => R (f a)) :
    Places P i true (f <$> p) R := fun s => (places s).map

/-- Whatever is returned, nothing is said of it. -/
theorem free (places : Places P i j p Q) : Places P i j p fun _ => True :=
  places.weaken fun _ _ => trivial

theorem discard (places : Places P i true p Q) : Places P i true (discard p) fun _ => True :=
  fun s => (places s).discard

theorem pure {a : α} (holds : Q a) : Places P i i (Pure.pure a) Q := fun _ good => .ok holds good

theorem expected (what : String) : Places P i j (Grammar.expected what) Q :=
  fun _ => .expected what

/-- Nothing follows what is not there. -/
theorem failed {what : String} : Places P i j (Grammar.expected what >>= k) R :=
  fun _ good => .error good.peek good

theorem tooDeep (limit : Nat) : Places P i j (Grammar.tooDeep limit) Q :=
  fun _ good => .error good.peek good

theorem test {f : Cursor → Bool} {k : Bool → Parser β} (rest : ∀ b, Places P i j (k b) R) :
    Places P i j (Grammar.test f >>= k) R := fun s => .test (rest _ s)

theorem branch {b : Bool} {p q : Parser α} (yes : Places P i j p Q) (no : Places P i j q Q) :
    Places P i j (if b then p else q) Q := by
  cases b with
  | true => exact yes
  | false => exact no

theorem here {k : Span → Parser β} (rest : ∀ span, P span → Places P i j (k span) R) :
    Places P i j (Grammar.here >>= k) R := fun s good => rest _ good.peek s good

/-- Where a reader ends that took a token. -/
theorem spanFrom {start : Span} {k : Span → Parser β} (join : ∀ a b, P a → P b → P (a.join b))
    (first : P start) (rest : ∀ span, P span → Places P true j (k span) R) :
    Places P true j (Grammar.spanFrom start >>= k) R :=
  fun s good => rest _ (join _ _ first (good.previous rfl)) s good

/-- The end of readers that note where they end. -/
theorem spanned {start : Span} {f : Span → β} (join : ∀ a b, P a → P b → P (a.join b))
    (first : P start) (holds : ∀ span, P span → R (f span)) :
    Places P true true (Grammar.spanFrom start >>= fun span => Pure.pure (f span)) R :=
  spanFrom join first fun span place => .pure (holds span place)

end Places

end

/-! Taking tokens. -/

section

variable {i : Bool}

theorem present_of_at? {s : Cursor} {mark : Punct} (next : s.at? mark = true) : s.rest ≠ [] :=
  Cursor.present_of_kind (by rw [beq_iff_eq.mp next]; nofun)

theorem present_of_atKeyword {s : Cursor} {word : Keyword} (next : s.atKeyword word = true) :
    s.rest ≠ [] := Cursor.present_of_kind (by rw [beq_iff_eq.mp next]; nofun)

theorem places_eat (mark : Punct) : Places P i i (eat mark) fun _ => True := by
  intro s good
  rw [eat]
  split
  · exact .ok trivial good.bump
  · exact .ok trivial good

theorem places_eatKeyword (word : Keyword) : Places P i i (eatKeyword word) fun _ => True := by
  intro s good
  rw [eatKeyword]
  split
  · exact .ok trivial good.bump
  · exact .ok trivial good

theorem places_expect (mark : Punct) : Places P i true (expect mark) P := by
  intro s good
  rw [expect]
  split
  · next next => exact .ok good.peek (good.take (present_of_at? next))
  · exact .error good.peek good

theorem places_expectKeyword (word : Keyword) : Places P i true (expectKeyword word) P := by
  intro s good
  rw [expectKeyword]
  split
  · next next => exact .ok good.peek (good.take (present_of_atKeyword next))
  · exact .error good.peek good

end

/-! Repetition. -/

section

variable {i : Bool} {item : Parser α} {Q : α → Prop}

theorem places_manyWhile (stop : Cursor → Bool)
    (places : ∀ s, stop s = false → PlacesAt P i i s item Q) :
    Places P i i (many stop item) fun as => ∀ a ∈ as, Q a := by
  intro s good
  fun_induction many stop item s with
  | case1 s stopped => exact .ok (by simp) good
  | case2 s going e t failed =>
    have yields := places s (Bool.not_eq_true _ ▸ going) good
    rw [failed] at yields
    cases yields with
    | error place good => exact .error place good
  | case3 s going a t read shorter more u rest ih =>
    have yields := places s (Bool.not_eq_true _ ▸ going) good
    rw [read] at yields
    cases yields with
    | ok holds good =>
      have yields := ih good
      rw [rest] at yields
      cases yields with
      | ok all good => exact .ok (List.forall_mem_cons.mpr ⟨holds, all⟩) good
  | case4 s going a t read shorter e u failed ih =>
    have yields := places s (Bool.not_eq_true _ ▸ going) good
    rw [read] at yields
    cases yields with
    | ok holds good =>
      have yields := ih good
      rw [failed] at yields
      cases yields with
      | error place good => exact .error place good
  | case5 s going a t read longer =>
    have yields := places s (Bool.not_eq_true _ ▸ going) good
    rw [read] at yields
    cases yields with
    | ok holds good => exact .ok (by simpa using holds) good

theorem places_many (stop : Cursor → Bool) (places : Places P i i item Q) :
    Places P i i (many stop item) fun as => ∀ a ∈ as, Q a :=
  places_manyWhile stop fun s _ => places s

theorem places_manyAfter (mark : Punct) (places : Places P true true item Q) :
    Places P i i (manyAfter mark item) fun as => ∀ a ∈ as, Q a :=
  places_many _ ((places_expect mark).discard.bind fun _ _ => places).keep

theorem places_commaList (places : ∀ i, Places P i true item Q) :
    Places P i true (commaList item) fun as => ∀ a ∈ as, Q a :=
  (places i).bind fun _ first => (places_manyAfter .comma (places true)).bind fun _ rest =>
    .pure (List.forall_mem_cons.mpr ⟨first, rest⟩)

/-- Items that fail leave errors at good places. -/
theorem good_itemList (stop : Cursor → Bool) (places : Places P i i item Q) (s : Cursor)
    (good : Good P i s) :
    (∀ a ∈ (itemList stop item s).1, Q a) ∧ Good P i (itemList stop item s).2 := by
  fun_induction itemList stop item s with
  | case1 s stopped => exact ⟨by simp, good⟩
  | case2 s going a t read shorter more u rest ih =>
    have yields := places s good
    rw [read] at yields
    cases yields with
    | ok holds good =>
      rw [rest] at ih
      exact ⟨List.forall_mem_cons.mpr ⟨holds, (ih good).1⟩, (ih good).2⟩
  | case3 s going a t read longer =>
    have yields := places s good
    rw [read] at yields
    cases yields with
    | ok holds good => exact ⟨by simpa using holds, good⟩
  | case4 s going e failed read t shorter ih =>
    have yields := places s good
    rw [read] at yields
    cases yields with
    | error place good => exact ih (good.resume place s)
  | case5 s going e failed read t longer =>
    have yields := places s good
    rw [read] at yields
    cases yields with
    | error place good => exact ⟨by simp, good.resume place s⟩

theorem places_bodyItems (places : Places P i i item Q) :
    Places P i i (bodyItems item) fun as => ∀ a ∈ as, Q a := by
  intro s good
  obtain ⟨all, good⟩ := good_itemList atClose places s good
  exact .ok all good

end

end Idl.Grammar
