import Idl.Grammar.Cursor
import Idl.Proofs.Token.Fine
import Mathlib.Data.List.Perm.Subperm

/-!
What readers take. A reader takes a run of tokens from the front, whether it fails or not; what it
returns is described together with the offsets of those tokens.
-/

set_option autoImplicit false

namespace Idl.Grammar

variable {α β : Type}

theorem bind_apply (p : Parser α) (k : α → Parser β) (s : Cursor) :
    (p >>= k) s = match p s with
      | .ok a t => k a t
      | .error e t => .error e t := by
  cases eq : p s <;> simp [bind, EStateM.bind, eq]

/-- Some of the tokens in front were taken, and `Q` holds of what was returned, if anything was, and
of their offsets. -/
def Took (front : List Token) (Q : α → List Nat → Prop) : Outcome α → Prop
  | .ok a t => ∃ used, front = used ++ t.rest ∧ Q a (used.map (·.span.offset))
  | .error _ t => ∃ used, front = used ++ t.rest

/-- The reader, at `s`, takes tokens from the front, and `Q` holds of what it returns and of their
offsets. -/
def ReadsAt (s : Cursor) (p : Parser α) (Q : α → List Nat → Prop) : Prop :=
  (∀ t ∈ s.rest, t.Fine) → Took s.rest Q (p s)

/-- The reader does so from anywhere. -/
def Reads (p : Parser α) (Q : α → List Nat → Prop) : Prop := ∀ s, ReadsAt s p Q

section

variable {s : Cursor} {p : Parser α} {k : α → Parser β} {P Q : α → List Nat → Prop}
  {R : β → List Nat → Prop}

/-! Rules. -/

theorem ReadsAt.pure {a : α} (holds : Q a []) : ReadsAt s (Pure.pure a) Q :=
  fun _ => ⟨[], rfl, holds⟩

theorem ReadsAt.expected (what : String) : ReadsAt s (expected what) Q := fun _ => ⟨[], rfl⟩

theorem ReadsAt.tooDeep (limit : Nat) : ReadsAt s (tooDeep limit) Q := fun _ => ⟨[], rfl⟩

theorem Took.weaken {front : List Token} {r : Outcome α} (took : Took front P r)
    (imp : ∀ a o, P a o → Q a o) : Took front Q r := by
  cases r with
  | ok a t =>
    obtain ⟨used, rest, holds⟩ := took
    exact ⟨used, rest, imp a _ holds⟩
  | error e t => exact took

/-- More tokens were taken before. -/
theorem Took.prepend {front : List Token} {r : Outcome α} (before : List Token)
    (took : Took front (fun a o => Q a (before.map (·.span.offset) ++ o)) r) :
    Took (before ++ front) Q r := by
  cases r with
  | ok a t =>
    obtain ⟨used, rest, holds⟩ := took
    exact ⟨before ++ used, by rw [rest, List.append_assoc], by rw [List.map_append]; exact holds⟩
  | error e t =>
    obtain ⟨used, rest⟩ := took
    exact ⟨before ++ used, by rw [rest, List.append_assoc]⟩

theorem ReadsAt.weaken (reads : ReadsAt s p P) (imp : ∀ a o, P a o → Q a o) : ReadsAt s p Q :=
  fun fine => (reads fine).weaken imp

/-- What follows may depend on what is left. -/
theorem ReadsAt.bindFrom (first : ReadsAt s p P)
    (second : ∀ a t used, s.rest = used ++ t.rest → P a (used.map (·.span.offset)) →
      ReadsAt t (k a) fun b o' => R b (used.map (·.span.offset) ++ o')) :
    ReadsAt s (p >>= k) R := by
  intro fine
  have outcome := first fine
  rw [bind_apply]
  cases eq : p s with
  | error e t =>
    rw [eq] at outcome
    exact outcome
  | ok a t =>
    rw [eq] at outcome
    obtain ⟨used, rest, holds⟩ := outcome
    have after := second a t used rest holds
    rw [rest] at fine ⊢
    exact (after fun x mem => fine x (List.mem_append_right _ mem)).prepend used

theorem ReadsAt.bind (first : ReadsAt s p P)
    (second : ∀ a t o, P a o → ReadsAt t (k a) fun b o' => R b (o ++ o')) :
    ReadsAt s (p >>= k) R :=
  first.bindFrom fun a t _ _ holds => second a t _ holds

theorem Reads.bind (first : Reads p P)
    (second : ∀ a o, P a o → Reads (k a) fun b o' => R b (o ++ o')) :
    Reads (p >>= k) R :=
  fun s => (first s).bind fun a t o holds => second a o holds t

theorem Reads.pure {a : α} (holds : Q a []) : Reads (Pure.pure a) Q := fun _ => ReadsAt.pure holds

theorem Reads.expected (what : String) : Reads (Grammar.expected what) Q :=
  fun _ => ReadsAt.expected what

theorem Reads.weaken (reads : Reads p P) (imp : ∀ a o, P a o → Q a o) : Reads p Q :=
  fun s => (reads s).weaken imp

theorem ReadsAt.map {f : α → β} (reads : ReadsAt s p fun a o => R (f a) o) :
    ReadsAt s (f <$> p) R := by
  have unfolded : f <$> p = p >>= fun a => Pure.pure (f a) := rfl
  rw [unfolded]
  exact reads.bind fun a t o holds => ReadsAt.pure (by simpa using holds)

theorem Reads.map {f : α → β} (reads : Reads p fun a o => R (f a) o) : Reads (f <$> p) R :=
  fun s => (reads s).map

theorem Reads.discard (reads : Reads p Q) : Reads (discard p) fun _ _ => True :=
  Reads.map (f := fun _ => PUnit.unit) (reads.weaken fun _ _ _ => trivial)

end

/-- Nothing follows what is not there. -/
theorem ReadsAt.failed {s : Cursor} {what : String} {k : α → Parser β} {Q : β → List Nat → Prop} :
    ReadsAt s (Grammar.expected what >>= k) Q := fun _ => ⟨[], rfl⟩

/-! What looks ahead takes nothing. -/

section

variable {s : Cursor} {Q : β → List Nat → Prop}

theorem ReadsAt.kind {k : TokenKind → Parser β} (reads : ReadsAt s (k s.kind) Q) :
    ReadsAt s (Grammar.kind >>= k) Q := reads

theorem ReadsAt.test {f : Cursor → Bool} {k : Bool → Parser β} (reads : ReadsAt s (k (f s)) Q) :
    ReadsAt s (Grammar.test f >>= k) Q := reads

theorem ReadsAt.here {k : Span → Parser β} (reads : ∀ span, ReadsAt s (k span) Q) :
    ReadsAt s (Grammar.here >>= k) Q := reads s.peek.span

theorem ReadsAt.spanFrom {start : Span} {k : Span → Parser β}
    (reads : ∀ span, ReadsAt s (k span) Q) :
    ReadsAt s (Grammar.spanFrom start >>= k) Q := reads (s.spanFrom start)

/-- The end of a reader that only notes where it ends. -/
theorem ReadsAt.spanned {start : Span} {f : Span → β} (holds : ∀ span, Q (f span) []) :
    ReadsAt s (Grammar.spanFrom start >>= fun span => Pure.pure (f span)) Q :=
  ReadsAt.spanFrom fun span => ReadsAt.pure (holds span)

end

/-! Taking tokens. -/

theorem rest_of_kind {s : Cursor} (some : s.kind ≠ .eof) : s.rest = s.peek :: s.bump.rest := by
  rw [Cursor.rest_bump]
  cases front : s.rest with
  | nil => exact absurd (by simp [Cursor.kind, Cursor.peek, Cursor.nth, front]) some
  | cons t ts => simp [Cursor.peek, Cursor.nth, front]

theorem bump_takes (s : Cursor) : ∃ used, s.rest = used ++ s.bump.rest := by
  refine ⟨s.rest.take 1, ?_⟩
  rw [Cursor.rest_bump]
  cases s.rest <;> rfl

/-- What is taken is next, unless nothing is. -/
theorem readsAt_bump (s : Cursor) : ReadsAt s bump fun t _ => t = s.peek :=
  fun _ => by
    obtain ⟨used, rest⟩ := bump_takes s
    exact ⟨used, rest, rfl⟩

theorem reads_bump : Reads bump fun _ _ => True :=
  fun s => (readsAt_bump s).weaken fun _ _ _ => trivial

theorem ReadsAt.took {s : Cursor} {a : α} {p : Parser α} (took : p s = .ok a s.bump) :
    ReadsAt s p fun b _ => b = a := by
  intro _
  rw [took]
  obtain ⟨used, rest⟩ := bump_takes s
  exact ⟨used, rest, rfl⟩

theorem ReadsAt.left {s : Cursor} {a : α} {p : Parser α} (left : p s = .ok a s) :
    ReadsAt s p fun b _ => b = a := by
  intro _
  rw [left]
  exact ⟨[], rfl, rfl⟩

theorem reads_eat (mark : Punct) : Reads (eat mark) fun _ _ => True := by
  intro s
  cases next : s.at? mark with
  | true => exact (ReadsAt.took (by rw [eat, if_pos next])).weaken fun _ _ _ => trivial
  | false => exact (ReadsAt.left (by rw [eat, next]; rfl)).weaken fun _ _ _ => trivial

theorem reads_eatKeyword (word : Keyword) : Reads (eatKeyword word) fun _ _ => True := by
  intro s
  cases next : s.atKeyword word with
  | true => exact (ReadsAt.took (by rw [eatKeyword, if_pos next])).weaken fun _ _ _ => trivial
  | false => exact (ReadsAt.left (by rw [eatKeyword, next]; rfl)).weaken fun _ _ _ => trivial

/-- What follows a word that may be there, which is known where the word is not. -/
theorem ReadsAt.eatKeyword {s : Cursor} {word : Keyword} {k : Bool → Parser β}
    {Q : β → List Nat → Prop} (taken : ∀ t o, ReadsAt t (k true) fun b o' => Q b (o ++ o'))
    (left : s.atKeyword word = false → ReadsAt s (k false) Q) :
    ReadsAt s (Grammar.eatKeyword word >>= k) Q := by
  cases next : s.atKeyword word with
  | true =>
    refine (ReadsAt.took (by rw [Grammar.eatKeyword, if_pos next])).bind fun b t o eq => ?_
    rw [eq]
    exact taken t o
  | false =>
    intro fine
    have unfolded : (Grammar.eatKeyword word >>= k) s = k false s := by
      rw [bind_apply, Grammar.eatKeyword, next]
      rfl
    rw [unfolded]
    exact left next fine

theorem reads_expect (mark : Punct) : Reads (expect mark) fun _ _ => True := by
  intro s
  cases next : s.at? mark with
  | true => exact (ReadsAt.took (by rw [expect, if_pos next])).weaken fun _ _ _ => trivial
  | false =>
    intro _
    rw [expect, next]
    exact ⟨[], rfl⟩

theorem reads_expectKeyword (word : Keyword) : Reads (expectKeyword word) fun _ _ => True := by
  intro s
  cases next : s.atKeyword word with
  | true => exact (ReadsAt.took (by rw [expectKeyword, if_pos next])).weaken fun _ _ _ => trivial
  | false =>
    intro _
    rw [expectKeyword, next]
    exact ⟨[], rfl⟩

/-! Repetition. -/

section

variable {item : Parser α} {Q : α → List Nat → Prop} {R : List α → List Nat → Prop}

theorem reads_many (stop : Cursor → Bool) (reads : Reads item Q) (nil : R [] [])
    (cons : ∀ a o as o', Q a o → R as o' → R (a :: as) (o ++ o')) : Reads (many stop item) R := by
  intro s fine
  have length : ∃ n, s.rest.length = n := ⟨_, rfl⟩
  obtain ⟨n, length⟩ := length
  induction n using Nat.strong_induction_on generalizing s with
  | _ n ih =>
    rw [many]
    split
    · exact ⟨[], rfl, nil⟩
    · have outcome := reads s fine
      cases eq : item s with
      | error e t =>
        rw [eq] at outcome
        exact outcome
      | ok a t =>
        rw [eq] at outcome
        obtain ⟨used, rest, holds⟩ := outcome
        dsimp only
        split
        · next shorter =>
          have after := ih t.rest.length (length ▸ shorter) t
            (fun x mem => fine x (by rw [rest]; exact List.mem_append_right _ mem)) rfl
          rw [rest]
          refine Took.prepend used ?_
          cases eq' : many stop item t with
          | ok as u =>
            rw [eq'] at after
            obtain ⟨more, rest', holds'⟩ := after
            exact ⟨more, rest', cons _ _ _ _ holds holds'⟩
          | error e u =>
            rw [eq'] at after
            exact after
        · have only := cons _ _ _ _ holds nil
          rw [List.append_nil] at only
          exact ⟨used, rest, only⟩

theorem recover_takes (depth : Nat) (s : Cursor) :
    ∃ used, s.rest = used ++ (s.recover depth).rest := by
  fun_induction Cursor.recover depth s with
  | case1 s none => exact ⟨[], rfl⟩
  | case2 s t ts rest ends => exact bump_takes s
  | case3 s t ts rest going closes => exact ⟨[], rfl⟩
  | case4 s t ts rest going open_ ih =>
    obtain ⟨first, took⟩ := bump_takes s
    obtain ⟨more, took'⟩ := ih
    exact ⟨first ++ more, by rw [took, took', List.append_assoc]⟩

theorem resume_takes (s : Cursor) (e : SyntaxError) (failed : Cursor) :
    ∃ used, failed.rest = used ++ (resume s e failed).rest := by
  obtain ⟨used, took⟩ := recover_takes s.braces (failed.report e)
  have same : (failed.report e).rest = failed.rest := rfl
  rw [same] at took
  rw [resume]
  split
  · obtain ⟨more, took'⟩ := bump_takes ((failed.report e).recover s.braces)
    exact ⟨used ++ more, by rw [took, took', List.append_assoc]⟩
  · exact ⟨used, took⟩

/-- Reading goes on behind what failed. -/
theorem itemList_takes (stop : Cursor → Bool) (reads : Reads item Q) (nil : R [] [])
    (cons : ∀ a o as o', Q a o → R as o' → R (a :: as) (o ++ o'))
    (skip : ∀ o as o', R as o' → R as (o ++ o')) (s : Cursor) (fine : ∀ t ∈ s.rest, t.Fine) :
    ∃ used, s.rest = used ++ (itemList stop item s).2.rest ∧
      R (itemList stop item s).1 (used.map (·.span.offset)) := by
  have skipped (used : List Token) : R [] (used.map (·.span.offset)) := by
    have more := skip (used.map (·.span.offset)) [] [] nil
    rwa [List.append_nil] at more
  fun_induction itemList stop item s with
  | case1 s stopped => exact ⟨[], rfl, nil⟩
  | case2 s going a t read shorter more u eq ih =>
    have outcome := reads s fine
    rw [read] at outcome
    obtain ⟨used, rest, holds⟩ := outcome
    obtain ⟨others, rest', holds'⟩ := ih fun x mem => fine x (by
      rw [rest]; exact List.mem_append_right _ mem)
    rw [eq] at rest' holds'
    refine ⟨used ++ others, by rw [rest, rest', List.append_assoc], ?_⟩
    rw [List.map_append]
    exact cons _ _ _ _ holds holds'
  | case3 s going a t read longer =>
    have outcome := reads s fine
    rw [read] at outcome
    obtain ⟨used, rest, holds⟩ := outcome
    have only := cons _ _ _ _ holds nil
    rw [List.append_nil] at only
    exact ⟨used, rest, only⟩
  | case4 s going e failed read t shorter ih =>
    have outcome := reads s fine
    rw [read] at outcome
    obtain ⟨used, rest⟩ := outcome
    obtain ⟨more, took⟩ := resume_takes s e failed
    obtain ⟨others, rest', holds⟩ := ih fun x mem => fine x (by
      rw [rest, took]; exact List.mem_append_right _ (List.mem_append_right _ mem))
    refine ⟨used ++ more ++ others, ?_, ?_⟩
    · rw [rest, took, List.append_assoc, List.append_assoc, ← rest']
    · rw [List.map_append]
      exact skip _ _ _ holds
  | case5 s going e failed read t longer =>
    have outcome := reads s fine
    rw [read] at outcome
    obtain ⟨used, rest⟩ := outcome
    obtain ⟨more, took⟩ := resume_takes s e failed
    exact ⟨used ++ more, by rw [rest, took, List.append_assoc], skipped _⟩

theorem reads_bodyItems (reads : Reads item Q) (nil : R [] [])
    (cons : ∀ a o as o', Q a o → R as o' → R (a :: as) (o ++ o'))
    (skip : ∀ o as o', R as o' → R as (o ++ o')) : Reads (bodyItems item) R := by
  intro s fine
  exact itemList_takes atClose reads nil cons skip s fine

end

/-! Values of a form, with the places that they declare. -/

/-- The value is of the form, and what it declares stands at some of the offsets, each of them
once. -/
structure Found (good : Prop) (places offsets : List Nat) : Prop where
  good : good
  places : places.Subperm offsets

section

variable {good : α → Prop} {places : α → List Nat} {item : Parser α}

theorem Found.cons {a : α} {o : List Nat} {as : List α} {o' : List Nat}
    (first : Found (good a) (places a) o) (rest : Found (∀ a ∈ as, good a) (as.flatMap places) o') :
    Found (∀ b ∈ a :: as, good b) ((a :: as).flatMap places) (o ++ o') where
  good := List.forall_mem_cons.mpr ⟨first.good, rest.good⟩
  places := by
    rw [List.flatMap_cons]
    exact first.places.append rest.places

theorem skip_subperm {p o : List Nat} (before : List Nat) (places : p.Subperm o) :
    p.Subperm (before ++ o) := places.trans (List.sublist_append_right _ _).subperm

theorem keep_subperm {p o : List Nat} (places : p.Subperm o) (after : List Nat) :
    p.Subperm (o ++ after) := places.trans (List.sublist_append_left _ _).subperm

theorem Found.skip {holds : Prop} {p o : List Nat} (before : List Nat) (found : Found holds p o) :
    Found holds p (before ++ o) :=
  ⟨found.good, skip_subperm before found.places⟩

theorem Found.keep {holds : Prop} {p o : List Nat} (found : Found holds p o) (after : List Nat) :
    Found holds p (o ++ after) :=
  ⟨found.good, keep_subperm found.places after⟩

/-- The name of what is found stands in front of it. -/
theorem Found.named {holds : Prop} {p o before : List Nat} {name : Nat}
    (first : [name].Subperm before) (found : Found holds p (name :: o)) :
    Found holds p (before ++ o) :=
  ⟨found.good, found.places.trans (first.append (List.Subperm.refl o))⟩

theorem Found.imp {holds holds' : Prop} {p o : List Nat} (found : Found holds p o)
    (imp : holds → holds') : Found holds' p o :=
  ⟨imp found.good, found.places⟩

/-- The reader returns a value of the form. -/
abbrev Finds (item : Parser α) (good : α → Prop) (places : α → List Nat) : Prop :=
  Reads item fun a o => Found (good a) (places a) o

theorem finds_many (stop : Cursor → Bool) (finds : Finds item good places) :
    Finds (many stop item) (fun as => ∀ a ∈ as, good a) (List.flatMap places) :=
  reads_many stop finds ⟨by simp, List.Subperm.refl _⟩ fun _ _ _ _ first rest => first.cons rest

theorem finds_bodyItems (finds : Finds item good places) :
    Finds (bodyItems item) (fun as => ∀ a ∈ as, good a) (List.flatMap places) :=
  reads_bodyItems finds ⟨by simp, List.Subperm.refl _⟩ (fun _ _ _ _ first rest => first.cons rest)
    fun before _ _ found => found.skip before

theorem finds_manyAfter (mark : Punct) (finds : Finds item good places) :
    Finds (manyAfter mark item) (fun as => ∀ a ∈ as, good a) (List.flatMap places) :=
  finds_many _ ((reads_expect mark).discard.bind fun _ o _ => finds.weaken fun _ _ found =>
    found.skip o)

theorem finds_commaList (finds : Finds item good places) :
    Finds (commaList item) (fun as => as ≠ [] ∧ ∀ a ∈ as, good a) (List.flatMap places) := by
  refine finds.bind fun a o first => (finds_manyAfter .comma finds).bind fun as o' rest =>
    Reads.pure ?_
  rw [List.append_nil]
  exact ⟨⟨by simp, (first.cons rest).good⟩, (first.cons rest).places⟩

/-- The reader returns a value of the form, which declares nothing. -/
abbrev Forms (item : Parser α) (good : α → Prop) : Prop := Reads item fun a _ => good a

theorem Forms.finds (forms : Forms item good) : Finds item good fun _ => [] :=
  forms.weaken fun _ _ holds => ⟨holds, List.nil_subperm⟩

theorem Finds.forms (finds : Finds item good places) : Forms item good :=
  finds.weaken fun _ _ found => found.good

theorem forms_many (stop : Cursor → Bool) (forms : Forms item good) :
    Forms (many stop item) fun as => ∀ a ∈ as, good a :=
  (finds_many stop forms.finds).forms

theorem forms_commaList (forms : Forms item good) :
    Forms (commaList item) fun as => as ≠ [] ∧ ∀ a ∈ as, good a :=
  (finds_commaList forms.finds).forms

end

end Idl.Grammar
