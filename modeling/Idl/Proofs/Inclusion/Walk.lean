import Idl.Proofs.Inclusion.Tree
import Idl.Proofs.Spans.Walk

/-!
Readers arrange spans. From the token at which a construct starts, what a reader returns adds trees
of spans to a row, each behind the one before, and no tree reaches beyond the token taken last. Main
statements: `ExtendsAt.bind`, `AddsAt.framed` and `mayAdd_bodyItems`.
-/

set_option autoImplicit false

namespace Idl.Grammar

variable {α β : Type}

/-! Cursors. -/

namespace Cursor

variable {s : Cursor}

/-- The places a reader knows, in order: that of the token taken last, those of the tokens not yet
taken, and the end. -/
def places (s : Cursor) : List Span := s.previous :: (s.rest.map (·.span) ++ [s.ending])

theorem exists_places (s : Cursor) : ∃ more, s.places = s.previous :: s.peek.span :: more := by
  cases rest : s.rest with
  | nil =>
    have peek : s.peek.span = s.ending := by simp [peek, nth, rest]
    exact ⟨[], by rw [places, rest, peek]; rfl⟩
  | cons t ts => exact ⟨_, by rw [places, rest, peek_of_rest rest]; rfl⟩

theorem places_of_present (present : s.rest ≠ []) :
    s.places = s.previous :: s.bump.places ∧ s.bump.previous = s.peek.span := by
  cases rest : s.rest with
  | nil => exact absurd rest present
  | cons t ts =>
    rw [bump_of_rest rest, peek_of_rest rest, places, rest]
    exact ⟨rfl, rfl⟩

theorem places_bump (s : Cursor) : s.bump.places <:+ s.places := by
  cases rest : s.rest with
  | nil =>
    have stays : s.bump = s := by
      rw [bump]
      split
      · rfl
      · next some => rw [rest] at some; cases some
    exact ⟨[], by rw [List.nil_append, stays]⟩
  | cons t ts =>
    rw [(places_of_present (present_of_rest rest)).1]
    exact List.suffix_cons _ _

theorem places_recover (depth : Nat) (s : Cursor) : (s.recover depth).places <:+ s.places := by
  fun_induction recover depth s with
  | case1 s none => exact List.suffix_rfl
  | case2 s t ts rest ends => exact s.places_bump
  | case3 s t ts rest going closes => exact List.suffix_rfl
  | case4 s t ts rest going open' ih => exact ih.trans s.places_bump

theorem places_resume (s : Cursor) (e : SyntaxError) (failed : Cursor) :
    (resume s e failed).places <:+ failed.places := by
  have recovered : ((failed.report e).recover s.braces).places <:+ failed.places :=
    places_recover s.braces (failed.report e)
  rw [resume]
  split
  · exact (places_bump _).trans recovered
  · exact recovered

end Cursor

/-! Stretches of tokens. -/

/-- The stretch from the place `start` up to `s`: its row is arranged from there to the token taken
last, which is of the stretch once it is `taken`. -/
structure Stretch (start : Span) (taken : Bool) (row : List SpanTree) (s : Cursor) : Prop where
  ordered : s.places.Pairwise Span.Before
  ahead : ∀ a ∈ s.places.tail, start.UpTo a
  behind : taken = true → start.UpTo s.previous
  arranged : Arranged start.offset s.previous.stop row

namespace Stretch

variable {start : Span} {i : Bool} {row xs : List SpanTree} {s t : Cursor}

theorem weaken (stretch : Stretch start true row s) (i : Bool) : Stretch start i row s :=
  { stretch with behind := fun _ => stretch.behind rfl }

/-- Some tokens further on, with nothing more in the row. -/
theorem onward (stretch : Stretch start i row s) (suffix : t.places <:+ s.places) :
    Stretch start i row t := by
  have ordered := stretch.ordered.sublist suffix.sublist
  -- either no token was taken, or the one taken last is among those that were ahead
  rcases List.suffix_cons_iff.mp suffix with same | later
  · have previous : t.previous = s.previous := (List.cons.inj same).1
    have tail : t.places.tail = s.places.tail := by rw [same]; rfl
    exact ⟨ordered, tail ▸ stretch.ahead, previous ▸ stretch.behind, previous ▸ stretch.arranged⟩
  · have mem : t.previous ∈ s.places.tail := later.subset List.mem_cons_self
    have before : s.previous.Before t.previous := List.rel_of_pairwise_cons stretch.ordered mem
    exact ⟨ordered, fun a inside => stretch.ahead a (later.subset (List.mem_of_mem_tail inside)),
      fun _ => stretch.ahead _ mem, stretch.arranged.widen (Nat.le_refl _) before.upTo.stop⟩

/-- Past a token that is there, without a trace of it. -/
theorem pass (stretch : Stretch start i row s) (present : s.rest ≠ []) :
    Stretch start true row s.bump := by
  obtain ⟨places, -⟩ := Cursor.places_of_present present
  have ahead := stretch.ahead
  rw [places] at ahead
  exact { stretch.onward s.places_bump with behind := fun _ => ahead _ List.mem_cons_self }

/-- What is read from the next token on is behind all that was read before. -/
theorem frame (stretch : Stretch start i row s) (suffix : t.places <:+ s.places)
    (inner : Stretch s.peek.span true xs t) : Stretch start true (row ++ xs) t := by
  obtain ⟨more, places⟩ := s.exists_places
  have before : s.previous.Before s.peek.span := by
    have ordered := stretch.ordered
    rw [places] at ordered
    exact List.rel_of_pairwise_cons ordered List.mem_cons_self
  have ahead : start.UpTo s.peek.span := stretch.ahead _ (by rw [places]; exact List.mem_cons_self)
  have behind := inner.behind rfl
  -- the outer row ends with the token taken last, and the inner one begins with the next
  exact ⟨inner.ordered, (stretch.onward suffix).ahead, fun _ => ahead.trans behind,
    stretch.arranged.append inner.arranged before ahead.offset
      (Nat.le_trans before.upTo.stop behind.stop)⟩

/-- A stretch may begin at any token. -/
theorem opened (stretch : Stretch start i row s) : Stretch s.peek.span false [] s := by
  refine ⟨stretch.ordered, fun a mem => ?_, nofun, .nil⟩
  obtain ⟨more, places⟩ := s.exists_places
  have ordered := stretch.ordered
  rw [places] at ordered mem
  rcases List.mem_cons.mp mem with rfl | later
  · exact .refl _
  · exact (List.rel_of_pairwise_cons (List.pairwise_cons.mp ordered).2 later).upTo

/-- Past a token that is there, which is the last tree of the row. -/
theorem take (stretch : Stretch start i row s) (present : s.rest ≠ []) :
    Stretch start true (row ++ [.leaf s.peek.span]) s.bump := by
  have alone := stretch.opened.pass present
  obtain ⟨-, previous⟩ := Cursor.places_of_present present
  refine stretch.frame s.places_bump { alone with arranged := ?_ }
  rw [previous]
  exact .single (Arranged.nested_leaf _) (Nat.le_refl _) (Nat.le_refl _)

/-- The span from the start to the token taken last covers the stretch. -/
theorem close (stretch : Stretch start true row s) {rows : List (List SpanTree)}
    (inside : ∀ r ∈ rows, r.Sublist row) :
    Stretch start true [.node (s.spanFrom start) rows] s := by
  have upTo := stretch.behind rfl
  refine { stretch with arranged := ?_ }
  rw [Cursor.spanFrom]
  refine .single (Arranged.close fun r mem => ?_) (Nat.le_of_eq upTo.offset_join.symm)
    (Nat.le_of_eq upTo.stop_join)
  rw [upTo.offset_join, upTo.stop_join]
  exact stretch.arranged.sublist (inside r mem)

end Stretch

/-! Readers. -/

/-- What a reader leaves that set out at `s`: something that is shown by the row which `Q` tells, at
the stage `j`, or an error. -/
inductive Extended (start : Span) (j : Bool) (s : Cursor) (Q : α → List SpanTree → Prop) :
    Outcome α → Prop
  | ok {a : α} {row : List SpanTree} {t : Cursor} (shown : Q a row)
      (suffix : t.places <:+ s.places) (stretch : Stretch start j row t) :
      Extended start j s Q (.ok a t)
  | error {e : SyntaxError} {t : Cursor} (suffix : t.places <:+ s.places) :
      Extended start j s Q (.error e t)

/-- From `s`, where the row is `pre` at the stage `i`, the reader extends the stretch up to the
stage `j`. -/
def ExtendsAt (start : Span) (i j : Bool) (pre : List SpanTree) (s : Cursor) (p : Parser α)
    (Q : α → List SpanTree → Prop) : Prop :=
  Stretch start i pre s → Extended start j s Q (p s)

/-- The reader does so from anywhere. -/
def Extends (start : Span) (i j : Bool) (pre : List SpanTree) (p : Parser α)
    (Q : α → List SpanTree → Prop) : Prop :=
  ∀ s, ExtendsAt start i j pre s p Q

/-- From `s`, the reader takes a token and adds what `f` tells to any row. -/
def AddsAt (s : Cursor) (p : Parser α) (f : α → List SpanTree) : Prop :=
  ∀ ⦃start i pre⦄, ExtendsAt start i true pre s p fun a row => row = pre ++ f a

/-- From anywhere, the reader takes a token and adds what `f` tells to any row. -/
def Adds (p : Parser α) (f : α → List SpanTree) : Prop := ∀ s, AddsAt s p f

/-- The reader adds what `f` tells to any row, and may take no token. -/
def MayAdd (p : Parser α) (f : α → List SpanTree) : Prop :=
  ∀ ⦃start i pre⦄, Extends start i i pre p fun a row => row = pre ++ f a

section

variable {start : Span} {i j : Bool} {pre : List SpanTree} {s : Cursor} {p : Parser α}
  {k : α → Parser β} {f : α → List SpanTree} {Q : α → List SpanTree → Prop}
  {R : β → List SpanTree → Prop}

namespace ExtendsAt

theorem weaken {Q' : α → List SpanTree → Prop} (first : ExtendsAt start i j pre s p Q)
    (imp : ∀ a row, Q a row → Q' a row) : ExtendsAt start i j pre s p Q' := by
  intro stretch
  have extended := first stretch
  generalize p s = r at extended
  cases extended with
  | ok shown suffix stretch => exact .ok (imp _ _ shown) suffix stretch
  | error suffix => exact .error suffix

/-- One reader after another, over any stage in between. -/
theorem bind {m : Bool} (first : ExtendsAt start i m pre s p Q)
    (second : ∀ a row, Q a row → Extends start m j row (k a) R) :
    ExtendsAt start i j pre s (p >>= k) R := by
  intro stretch
  have extended := first stretch
  rw [bind_apply]
  generalize p s = r at extended
  cases extended with
  | error suffix => exact .error suffix
  | @ok a row t shown suffix stretch =>
    have extended := second a row shown t stretch
    dsimp only
    generalize k a t = r at extended
    cases extended with
    | ok shown further stretch => exact .ok shown (further.trans suffix) stretch
    | error further => exact .error (further.trans suffix)

theorem kind {k : TokenKind → Parser β} (rest : ExtendsAt start i j pre s (k s.kind) R) :
    ExtendsAt start i j pre s (Grammar.kind >>= k) R := rest

theorem test {g : Cursor → Bool} {k : Bool → Parser β}
    (rest : ExtendsAt start i j pre s (k (g s)) R) :
    ExtendsAt start i j pre s (Grammar.test g >>= k) R := rest

theorem expected (what : String) : ExtendsAt start i j pre s (Grammar.expected what) Q :=
  fun _ => .error List.suffix_rfl

/-- A construct of its own, from the next token on, in any row. -/
theorem framed {R : α → List SpanTree → Prop}
    (inner : ExtendsAt s.peek.span false true [] s p Q)
    (lift : ∀ a row, Q a row → R a (pre ++ row)) : ExtendsAt start i true pre s p R := by
  intro stretch
  have extended := inner stretch.opened
  generalize p s = r at extended
  cases extended with
  | ok shown suffix opened => exact .ok (lift _ _ shown) suffix (stretch.frame suffix opened)
  | error suffix => exact .error suffix

end ExtendsAt

namespace Extends

theorem pure {a : α} (shown : Q a pre) : Extends start i i pre (Pure.pure a) Q :=
  fun _ stretch => .ok shown List.suffix_rfl stretch

theorem expected (what : String) : Extends start i j pre (Grammar.expected what) Q :=
  fun _ => .expected what

/-- Nothing follows what is not there. -/
theorem failed {what : String} : Extends start i j pre (Grammar.expected what >>= k) R :=
  fun _ _ => .error List.suffix_rfl

theorem test {g : Cursor → Bool} {k : Bool → Parser β} (rest : ∀ b, Extends start i j pre (k b) R) :
    Extends start i j pre (Grammar.test g >>= k) R := fun s => .test (rest _ s)

theorem branch {b : Bool} {p q : Parser α} (yes : Extends start i j pre p Q)
    (no : Extends start i j pre q Q) : Extends start i j pre (if b then p else q) Q := by
  cases b with
  | true => exact yes
  | false => exact no

/-- What is in the row may be seen as another row. -/
theorem regroup {row : List SpanTree}
    (arranged : ∀ lo hi, Arranged lo hi pre → Arranged lo hi row)
    (rest : Extends start i j row p Q) : Extends start i j pre p Q :=
  fun s stretch => rest s { stretch with arranged := arranged _ _ stretch.arranged }

/-- What was added last need not be shown. -/
theorem drop {xs : List SpanTree} (rest : Extends start i j pre p Q) :
    Extends start i j (pre ++ xs) p Q :=
  rest.regroup fun _ _ arranged => arranged.sublist (List.sublist_append_left _ _)

/-- The end of a construct that notes where it ends: its node takes the place of the row. -/
theorem closing {g : Span → β} (rows : List (List SpanTree)) (inside : ∀ r ∈ rows, r.Sublist pre)
    (shown : ∀ span, R (g span) [.node span rows]) :
    Extends start true true pre (spanFrom start >>= fun span => Pure.pure (g span)) R :=
  fun _ stretch => .ok (shown _) List.suffix_rfl (stretch.close inside)

/-- The same, with the row as it is. -/
theorem spanned {g : Span → β} (shown : ∀ span, R (g span) [.node span [pre]]) :
    Extends start true true pre (spanFrom start >>= fun span => Pure.pure (g span)) R :=
  closing [pre] (List.forall_mem_singleton.mpr (List.Sublist.refl _)) shown

/-- A node around the only tree of a stretch and its start. -/
theorem cover {x : SpanTree} (rest : Extends start true j [.node (start.join x.span) [[x]]] p Q) :
    Extends start true j [x] p Q := by
  intro s stretch
  refine rest s { stretch with arranged := ?_ }
  have nested := stretch.arranged.nested x List.mem_cons_self
  obtain ⟨lower, upper⟩ := stretch.arranged.within x List.mem_cons_self
  have first : (start.join x.span).offset = start.offset := by
    rw [Span.offset_join, Nat.min_eq_left lower]
  have last : x.span.stop ≤ (start.join x.span).stop := by
    rw [Span.stop_join]
    exact Nat.le_max_right _ _
  refine .single (Arranged.close (List.forall_mem_singleton.mpr (.single nested ?_ last)))
    (Nat.le_of_eq first.symm) ?_
  · rwa [first]
  · rw [SpanTree.span_node, Span.stop_join]
    exact Nat.max_le.mpr ⟨(stretch.behind rfl).stop, upper⟩

end Extends

namespace AddsAt

theorem last (first : AddsAt s p f) :
    ExtendsAt start i true pre s p fun a row => row = pre ++ f a := @first _ _ _

theorem bind (first : AddsAt s p f) (second : ∀ a, Extends start true j (pre ++ f a) (k a) R) :
    ExtendsAt start i j pre s (p >>= k) R :=
  ExtendsAt.bind first.last fun a _ eq => eq ▸ second a

/-- The same, for a reader that adds nothing. -/
theorem pass (first : AddsAt s p fun _ => []) (second : ∀ a, Extends start true j pre (k a) R) :
    ExtendsAt start i j pre s (p >>= k) R :=
  first.bind fun a => by rw [List.append_nil]; exact second a

theorem map {g : α → β} {h : β → List SpanTree} (first : AddsAt s p f) (eq : ∀ a, h (g a) = f a) :
    AddsAt s (g <$> p) h :=
  fun _ _ _ => first.bind fun a _ stretch => .ok (by rw [eq]) List.suffix_rfl stretch

/-- What is added need not be shown. -/
theorem discard (first : AddsAt s p f) : AddsAt s (discard p) fun _ => [] :=
  fun _ _ _ => first.bind fun _ => .drop (.pure (List.append_nil _).symm)

theorem framed (inner : ExtendsAt s.peek.span false true [] s p fun a row => row = f a) :
    AddsAt s p f := fun _ _ _ => ExtendsAt.framed inner fun _ _ eq => by rw [eq]

end AddsAt

namespace Adds

theorem of (each : ∀ start i pre, Extends start i true pre p fun a row => row = pre ++ f a) :
    Adds p f := fun s _ _ _ => each _ _ _ s

theorem bind (first : Adds p f) (second : ∀ a, Extends start true j (pre ++ f a) (k a) R) :
    Extends start i j pre (p >>= k) R := fun s => (first s).bind second

theorem pass (first : Adds p fun _ => []) (second : ∀ a, Extends start true j pre (k a) R) :
    Extends start i j pre (p >>= k) R := fun s => (first s).pass second

theorem map {g : α → β} {h : β → List SpanTree} (first : Adds p f) (eq : ∀ a, h (g a) = f a) :
    Adds (g <$> p) h := fun s => (first s).map eq

theorem discard (first : Adds p f) : Adds (discard p) fun _ => [] := fun s => (first s).discard

theorem last (first : Adds p f) : Extends start i true pre p fun a row => row = pre ++ f a :=
  fun s => (first s).last

/-- What takes a token may be where none needs to be taken. -/
theorem may (first : Adds p f) : MayAdd p f := by
  intro start i pre s stretch
  have extended := first s stretch
  generalize p s = r at extended
  cases extended with
  | ok shown suffix stretch => exact .ok shown suffix (stretch.weaken i)
  | error suffix => exact .error suffix

end Adds

namespace MayAdd

theorem last (first : MayAdd p f) : Extends start i i pre p fun a row => row = pre ++ f a :=
  @first _ _ _

theorem pure {a : α} (nothing : f a = []) : MayAdd (Pure.pure a) f :=
  fun _ _ _ => .pure (by rw [nothing, List.append_nil])

theorem bind (first : MayAdd p f) (second : ∀ a, Extends start i j (pre ++ f a) (k a) R) :
    Extends start i j pre (p >>= k) R :=
  fun s => ExtendsAt.bind (first s) fun a _ eq => eq ▸ second a

theorem pass (first : MayAdd p fun _ => []) (second : ∀ a, Extends start i j pre (k a) R) :
    Extends start i j pre (p >>= k) R :=
  first.bind fun a => by rw [List.append_nil]; exact second a

end MayAdd

end

/-! Taking tokens. -/

/-- From `s`, a reader takes just the next token, at the place that `place` tells of what is
returned, or it fails. -/
inductive TakesOne (place : α → Span) (s : Cursor) : Outcome α → Prop
  | ok {a : α} (present : s.rest ≠ []) (same : place a = s.peek.span) :
      TakesOne place s (.ok a s.bump)
  | error {e : SyntaxError} {t : Cursor} (suffix : t.places <:+ s.places) :
      TakesOne place s (.error e t)

section

variable {s : Cursor} {f : α → List SpanTree} {place : β → Span} {q : Parser β}

/-- The token is a leaf. -/
theorem TakesOne.adds (one : TakesOne place s (q s)) : AddsAt s q fun b => [.leaf (place b)] := by
  intro start i pre stretch
  generalize q s = r at one
  cases one with
  | ok present same => exact .ok (by simp only [same]) s.places_bump (stretch.take present)
  | error suffix => exact .error suffix

/-- A construct begins with the token. -/
theorem TakesOne.opens (one : TakesOne place s (q s)) {k : β → Parser α}
    (rest : ∀ b, Extends (place b) true true [] (k b) fun a row => row = f a) :
    AddsAt s (q >>= k) f := by
  refine .framed (ExtendsAt.bind (Q := fun b row => place b = s.peek.span ∧ row = []) (m := true)
    (fun stretch => ?_) ?_)
  · generalize q s = r at one
    cases one with
    | ok present same => exact .ok ⟨same, rfl⟩ s.places_bump (stretch.pass present)
    | error suffix => exact .error suffix
  · rintro b row ⟨same, rfl⟩
    exact same ▸ rest b

theorem takesOne_bump (present : s.rest ≠ []) : TakesOne Token.span s (Grammar.bump s) :=
  .ok present rfl

theorem takesOne_expect (mark : Punct) (s : Cursor) : TakesOne id s (expect mark s) := by
  rw [expect]
  split
  · next next => exact .ok (present_of_at? next) rfl
  · exact .error List.suffix_rfl

theorem takesOne_expectKeyword (word : Keyword) (s : Cursor) :
    TakesOne id s (expectKeyword word s) := by
  rw [expectKeyword]
  split
  · next next => exact .ok (present_of_atKeyword next) rfl
  · exact .error List.suffix_rfl

theorem AddsAt.bump (present : s.rest ≠ []) : AddsAt s Grammar.bump fun t => [.leaf t.span] :=
  (takesOne_bump present).adds

/-- A token that is read for a value that holds no span. -/
theorem AddsAt.silent {a : α} (present : s.rest ≠ []) :
    AddsAt s (do Functor.discard Grammar.bump; return a) fun _ => [] :=
  fun _ _ _ => (AddsAt.bump present).discard.pass fun _ => .pure (List.append_nil _).symm

theorem adds_expect (mark : Punct) : Adds (expect mark) fun a => [.leaf a] :=
  fun s => (takesOne_expect mark s).adds

theorem adds_expectKeyword (word : Keyword) : Adds (expectKeyword word) fun a => [.leaf a] :=
  fun s => (takesOne_expectKeyword word s).adds

theorem mayAdd_eat (mark : Punct) : MayAdd (eat mark) fun _ => [] := by
  intro start i pre s stretch
  rw [eat]
  split
  · exact .ok (List.append_nil _).symm s.places_bump (stretch.onward s.places_bump)
  · exact .ok (List.append_nil _).symm List.suffix_rfl stretch

theorem mayAdd_eatKeyword (word : Keyword) : MayAdd (eatKeyword word) fun _ => [] := by
  intro start i pre s stretch
  rw [eatKeyword]
  split
  · exact .ok (List.append_nil _).symm s.places_bump (stretch.onward s.places_bump)
  · exact .ok (List.append_nil _).symm List.suffix_rfl stretch

theorem adds_tooDeep (limit : Nat) : Adds (tooDeep limit) f :=
  fun _ _ _ _ _ => .error List.suffix_rfl

/-! Constructs that begin at the next token. -/

theorem extends_here {start : Span} {i : Bool} {pre : List SpanTree}
    {Q R : α → List SpanTree → Prop} {k : Span → Parser α}
    (rest : ∀ start, Extends start false true [] (k start) Q)
    (lift : ∀ a row, Q a row → R a (pre ++ row)) : Extends start i true pre (here >>= k) R :=
  fun s => .framed (rest s.peek.span s) lift

theorem adds_here {k : Span → Parser α}
    (rest : ∀ start, Extends start false true [] (k start) fun a row => row = f a) :
    Adds (here >>= k) f :=
  .of fun _ _ _ => extends_here rest fun _ _ eq => by rw [eq]

theorem adds_ofExpect {mark : Punct} {k : Span → Parser α}
    (rest : ∀ start, Extends start true true [] (k start) fun a row => row = f a) :
    Adds (expect mark >>= k) f := fun s => (takesOne_expect mark s).opens rest

theorem adds_ofKeyword {word : Keyword} {k : Span → Parser α}
    (rest : ∀ start, Extends start true true [] (k start) fun a row => row = f a) :
    Adds (expectKeyword word >>= k) f := fun s => (takesOne_expectKeyword word s).opens rest

end

/-! Repetition. -/

/-- The row of a list is made of the rows of its items. -/
structure Gathers (g : List α → List SpanTree) (f : α → List SpanTree) : Prop where
  nil : g [] = []
  cons : ∀ a as, g (a :: as) = f a ++ g as

namespace Gathers

theorem map (tree : α → SpanTree) : Gathers (List.map tree) fun a => [tree a] :=
  ⟨rfl, fun _ _ => rfl⟩

theorem flatMap (f : α → List SpanTree) : Gathers (List.flatMap f) f :=
  ⟨rfl, fun _ _ => List.flatMap_cons⟩

end Gathers

section

variable {item : Parser α} {f : α → List SpanTree} {g : List α → List SpanTree}

theorem mayAdd_manyWhile (gathers : Gathers g f) (stop : Cursor → Bool)
    (adds : ∀ s, stop s = false → AddsAt s item f) : MayAdd (many stop item) g := by
  intro start i pre s stretch
  fun_induction many stop item s generalizing pre with
  | case1 s stopped =>
    exact .ok (by rw [gathers.nil, List.append_nil]) List.suffix_rfl stretch
  | case2 s going e t failed =>
    have extended := adds s (Bool.not_eq_true _ ▸ going) stretch
    rw [failed] at extended
    cases extended with
    | error suffix => exact .error suffix
  | case3 s going a t read shorter more u rest ih =>
    have extended := adds s (Bool.not_eq_true _ ▸ going) stretch
    rw [read] at extended
    cases extended with
    | ok shown suffix stretch =>
      subst shown
      have extended := ih (stretch.weaken i)
      rw [rest] at extended
      cases extended with
      | ok shown further stretch =>
        exact .ok (by rw [shown, gathers.cons, List.append_assoc]) (further.trans suffix) stretch
  | case4 s going a t read shorter e u failed ih =>
    have extended := adds s (Bool.not_eq_true _ ▸ going) stretch
    rw [read] at extended
    cases extended with
    | ok shown suffix stretch =>
      have extended := ih (stretch.weaken i)
      rw [failed] at extended
      cases extended with
      | error further => exact .error (further.trans suffix)
  | case5 s going a t read longer =>
    have extended := adds s (Bool.not_eq_true _ ▸ going) stretch
    rw [read] at extended
    cases extended with
    | ok shown suffix stretch =>
      -- the loop stops behind an item that took no token
      refine .ok ?_ suffix (stretch.weaken i)
      rw [shown, gathers.cons, gathers.nil, List.append_nil]

theorem mayAdd_many (gathers : Gathers g f) (stop : Cursor → Bool) (adds : Adds item f) :
    MayAdd (many stop item) g :=
  mayAdd_manyWhile gathers stop fun s _ => adds s

theorem mayAdd_manyAfter (gathers : Gathers g f) (mark : Punct) (adds : Adds item f) :
    MayAdd (manyAfter mark item) g :=
  mayAdd_many gathers _ (.of fun _ _ _ => (adds_expect mark).discard.pass fun _ => adds.last)

theorem adds_commaList (gathers : Gathers g f) (adds : Adds item f) : Adds (commaList item) g :=
  .of fun _ _ _ => adds.bind fun _ => (mayAdd_manyAfter gathers .comma adds).bind fun _ =>
    .pure (by rw [gathers.cons, List.append_assoc])

/-- Items that fail leave no trace. -/
theorem stretch_itemList (gathers : Gathers g f) (stop : Cursor → Bool) (adds : Adds item f)
    {start : Span} {i : Bool} (s : Cursor) :
    ∀ pre, Stretch start i pre s → (itemList stop item s).2.places <:+ s.places ∧
      Stretch start i (pre ++ g (itemList stop item s).1) (itemList stop item s).2 := by
  fun_induction itemList stop item s with
  | case1 s stopped =>
    exact fun pre stretch => ⟨List.suffix_rfl, by rwa [gathers.nil, List.append_nil]⟩
  | case2 s going a t read shorter more u rest ih =>
    intro pre stretch
    have extended := adds s stretch
    rw [read] at extended
    cases extended with
    | ok shown suffix stretch =>
      subst shown
      rw [rest] at ih
      obtain ⟨further, stretch⟩ := ih _ (stretch.weaken i)
      exact ⟨further.trans suffix, by rwa [gathers.cons, ← List.append_assoc]⟩
  | case3 s going a t read longer =>
    intro pre stretch
    have extended := adds s stretch
    rw [read] at extended
    cases extended with
    | ok shown suffix stretch =>
      subst shown
      refine ⟨suffix, ?_⟩
      rw [gathers.cons, gathers.nil, List.append_nil]
      exact stretch.weaken i
  | case4 s going e failed read t shorter ih =>
    intro pre stretch
    have extended := adds s stretch
    rw [read] at extended
    cases extended with
    | error suffix =>
      -- the trees of the failed item are dropped with its row; its tokens are behind all the same
      have resumed := (Cursor.places_resume s e failed).trans suffix
      obtain ⟨further, stretch⟩ := ih _ (stretch.onward resumed)
      exact ⟨further.trans resumed, stretch⟩
  | case5 s going e failed read t longer =>
    intro pre stretch
    have extended := adds s stretch
    rw [read] at extended
    cases extended with
    | error suffix =>
      have resumed := (Cursor.places_resume s e failed).trans suffix
      exact ⟨resumed, by rw [gathers.nil, List.append_nil]; exact stretch.onward resumed⟩

theorem mayAdd_bodyItems (gathers : Gathers g f) (adds : Adds item f) :
    MayAdd (bodyItems item) g := by
  intro start i pre s stretch
  obtain ⟨suffix, stretch⟩ := stretch_itemList gathers atClose adds s pre stretch
  exact .ok rfl suffix stretch

end

end Idl.Grammar
