import Idl.Proofs.Rereading.Spelling
import Idl.Proofs.Lockstep.Repeat

/-!
Readers in front of chunks: each takes its own, has nothing to report, and returns what was written.
One rule for each way to look at, take and repeat. Main statements: `Rereads.bind` and
`rereads_many`.
-/

set_option autoImplicit false

namespace Idl

/-- The class of the first token of the chunks. -/
def front (cs : List Chunk) : TokenKind := (kinds cs).headD .eof

section

variable {cs : List Chunk}

@[simp] theorem front_nil : front [] = .eof := rfl

@[simp] theorem front_gap {blanks : List Char} : front (.gap blanks :: cs) = front cs := rfl

@[simp] theorem front_indent {n : Nat} : front (.indent n :: cs) = front cs := rfl

@[simp] theorem front_word {k : Keyword} : front (.word k :: cs) = .keyword k := rfl

@[simp] theorem front_mark {m : Punct} : front (.mark m :: cs) = .punct m := rfl

@[simp] theorem front_ident {i : Ident} : front (.ident i :: cs) = .ident := rfl

@[simp] theorem front_text {s : String} : front (.text s :: cs) = .literal .string := rfl

theorem front_of_head {k : TokenKind} (head : (kinds cs)[0]? = some k) : front cs = k := by
  rw [front, List.headD_eq_head?_getD, List.head?_eq_getElem?, head]
  rfl

theorem front_name (n : ScopedName) (cs : List Chunk) :
    front (.name n :: cs) = .ident ∨ front (.name n :: cs) = .punct .colonColon := by
  cases absolute : n.absolute with
  | false => exact .inl (by simp [front, Chunk.kinds, ScopedName.kinds, absolute])
  | true => exact .inr (by simp [front, Chunk.kinds, ScopedName.kinds, absolute])

end

namespace Grammar

variable {α β : Type}

/-- In front of the chunks `cs`, the reader succeeds and has nothing to report; behind it, `ds` come
next, and `Q` holds of what it returns. -/
def Rereads (p : Parser α) (cs ds : List Chunk) (Q : α → Prop) : Prop :=
  ∀ s, Spelled cs s.rest → ∃ a t, p s = .ok a t ∧ Spelled ds t.rest ∧ t.errors = s.errors ∧ Q a

section

variable {p : Parser α} {k : α → Parser β} {cs ds es : List Chunk} {P Q : α → Prop} {R : β → Prop}

namespace Rereads

theorem pure {a : α} (holds : Q a) : Rereads (Pure.pure a) cs cs Q :=
  fun s spelled => ⟨a, s, rfl, spelled, rfl, holds⟩

theorem bind (first : Rereads p cs ds P) (second : ∀ a, P a → Rereads (k a) ds es R) :
    Rereads (p >>= k) cs es R := by
  intro s spelled
  obtain ⟨a, t, read, spelled, errors, holds⟩ := first s spelled
  obtain ⟨b, u, read', spelled, errors', holds⟩ := second a holds t spelled
  refine ⟨b, u, ?_, spelled, errors'.trans errors, holds⟩
  rw [bind_apply, read]
  exact read'

theorem imp (rereads : Rereads p cs ds P) (imp : ∀ a, P a → Q a) : Rereads p cs ds Q := by
  intro s spelled
  obtain ⟨a, t, read, spelled, errors, holds⟩ := rereads s spelled
  exact ⟨a, t, read, spelled, errors, imp a holds⟩

theorem map {f : α → β} (rereads : Rereads p cs ds fun a => R (f a)) :
    Rereads (f <$> p) cs ds R := by
  have unfolded : f <$> p = p >>= fun a => Pure.pure (f a) := rfl
  rw [unfolded]
  exact rereads.bind fun _ => .pure

/-- What is read goes into something else. -/
theorem wrap {f : α → β} (rereads : Rereads p cs ds P) (holds : ∀ a, P a → R (f a)) :
    Rereads (do return f (← p)) cs ds R :=
  rereads.bind fun a held => .pure (holds a held)

theorem discard (rereads : Rereads p cs ds P) : Rereads (discard p) cs ds fun _ => True :=
  (rereads.imp fun _ _ => trivial).map

/-- Blanks in front are not seen. -/
theorem skip {blanks : List Char} (rereads : Rereads p cs ds Q) :
    Rereads p (.gap blanks :: cs) ds Q :=
  fun s spelled => rereads s (spelled_gap.mp spelled)

theorem skipBehind (blanks : List Char) (rereads : Rereads p cs (.gap blanks :: ds) Q) :
    Rereads p cs ds Q := by
  intro s spelled
  obtain ⟨a, t, read, spelled, rest⟩ := rereads s spelled
  exact ⟨a, t, read, spelled_gap.mp spelled, rest⟩

/-- Only the chunks that are no blanks count. -/
theorem of_solid {cs' : List Chunk} (rereads : Rereads p cs ds Q) (same : solid cs' = solid cs) :
    Rereads p cs' ds Q := by
  intro s spelled
  rw [← spelled_solid, same, spelled_solid] at spelled
  exact rereads s spelled

/-- Only what the reader does in front of the chunks counts. -/
theorem congr {q : Parser α} (rereads : Rereads p cs ds Q)
    (same : ∀ s : Cursor, Spelled cs s.rest → q s = p s) : Rereads q cs ds Q := by
  intro s spelled
  rw [same s spelled]
  exact rereads s spelled

end Rereads

/-! Looking ahead. -/

theorem length_of_spelled {ts : List Token} (spelled : Spelled cs ts) :
    ts.length = (kinds cs).length := by
  rw [← kinds_of_spelled spelled, List.length_map]

/-- Past chunks that are not all blanks, fewer tokens are left. -/
theorem shorter_of_spelled (some : kinds cs ≠ []) {s t : Cursor}
    (before : Spelled (cs ++ ds) s.rest) (behind : Spelled ds t.rest) :
    t.rest.length < s.rest.length := by
  have positive := List.length_pos_of_ne_nil some
  rw [length_of_spelled before, length_of_spelled behind, kinds_append, List.length_append]
  omega

theorem kind_of_head {ts : List Token} (spelled : Spelled cs ts) {t : Token} (mem : t ∈ ts.head?) :
    t.kind = front cs := by
  rw [front, ← kinds_of_spelled spelled, List.headD_eq_head?_getD, List.head?_map, mem]
  rfl

theorem Cursor.nth_kind_of_spelled {s : Cursor} (spelled : Spelled cs s.rest) (n : Nat) :
    (s.nth n).kind = (kinds cs)[n]?.getD .eof := by
  rw [← kinds_of_spelled spelled, List.getElem?_map, nth]
  cases s.rest[n]? <;> rfl

theorem Cursor.kind_of_spelled {s : Cursor} (spelled : Spelled cs s.rest) : s.kind = front cs := by
  rw [kind, peek, nth_kind_of_spelled spelled, front, List.headD_eq_head?_getD,
    List.head?_eq_getElem?]

theorem Cursor.at?_of_spelled {s : Cursor} (spelled : Spelled cs s.rest) (m : Punct) :
    s.at? m = (front cs == .punct m) := by
  rw [at?, kind_of_spelled spelled]

theorem Cursor.atKeyword_of_spelled {s : Cursor} (spelled : Spelled cs s.rest) (k : Keyword) :
    s.atKeyword k = (front cs == .keyword k) := by
  rw [atKeyword, kind_of_spelled spelled]

theorem atClose_of_spelled {s : Cursor} (spelled : Spelled cs s.rest) :
    atClose s = (front cs == .punct .rightBrace || (kinds cs).isEmpty) := by
  rw [atClose, s.at?_of_spelled spelled, Cursor.atEnd, ← kinds_of_spelled spelled, List.isEmpty_map]

theorem rereads_kind {k : TokenKind → Parser β} (rereads : Rereads (k (front cs)) cs ds R) :
    Rereads (kind >>= k) cs ds R :=
  rereads.congr fun s spelled => by rw [bind_apply, kind, s.kind_of_spelled spelled]

theorem rereads_test {test : Cursor → Bool} {k : Bool → Parser β} {b : Bool}
    (known : ∀ s : Cursor, Spelled cs s.rest → test s = b) (rereads : Rereads (k b) cs ds R) :
    Rereads (Grammar.test test >>= k) cs ds R :=
  rereads.congr fun s spelled => by rw [bind_apply, Grammar.test, known s spelled]

theorem rereads_testMark {m : Punct} {k : Bool → Parser β}
    (rereads : Rereads (k true) (.mark m :: cs) ds R) :
    Rereads (Grammar.test (·.at? m) >>= k) (.mark m :: cs) ds R :=
  rereads_test (fun s spelled => by simp [s.at?_of_spelled spelled]) rereads

theorem rereads_testMark_absent {m : Punct} {k : Bool → Parser β} (other : front cs ≠ .punct m)
    (rereads : Rereads (k false) cs ds R) : Rereads (Grammar.test (·.at? m) >>= k) cs ds R :=
  rereads_test (fun s spelled => by simpa [s.at?_of_spelled spelled] using other) rereads

theorem rereads_here {k : Span → Parser β} (rereads : ∀ span, Rereads (k span) cs ds R) :
    Rereads (here >>= k) cs ds R :=
  Rereads.bind (P := fun _ => True) (fun s spelled => ⟨_, s, rfl, spelled, rfl, trivial⟩)
    fun span _ => rereads span

theorem rereads_spanFrom {k : Span → Parser β} {start : Span}
    (rereads : ∀ span, Rereads (k span) cs ds R) : Rereads (spanFrom start >>= k) cs ds R :=
  Rereads.bind (P := fun _ => True) (fun s spelled => ⟨_, s, rfl, spelled, rfl, trivial⟩)
    fun span _ => rereads span

/-! Taking a token. -/

/-- The reader takes the first token. -/
theorem rereads_first {c : Chunk} {kind : TokenKind}
    (single : ∀ us vs, c.Spells us vs → ∃ t, us = [t] ∧ t.kind = kind)
    (takes : ∀ s : Cursor, s.kind = kind → ∃ a, p s = .ok a s.bump ∧ Q a) :
    Rereads p (c :: cs) cs Q := by
  rintro s ⟨us, vs, rest, spells, spelled⟩
  obtain ⟨t, rfl, kind⟩ := single us vs spells
  obtain ⟨a, read, holds⟩ := takes s (by rw [Cursor.kind_of_rest rest, kind])
  refine ⟨a, s.bump, read, ?_, errors_bump s, holds⟩
  rwa [s.rest_bump, rest]

theorem single_mark {m : Punct} (us vs : List Token) (spells : Chunk.Spells (.mark m) us vs) :
    ∃ t, us = [t] ∧ t.kind = .punct m := by
  cases spells with
  | mark kind => exact ⟨_, rfl, kind⟩

theorem single_word {w : Keyword} (us vs : List Token) (spells : Chunk.Spells (.word w) us vs) :
    ∃ t, us = [t] ∧ t.kind = .keyword w := by
  cases spells with
  | word kind => exact ⟨_, rfl, kind⟩

theorem rereads_expect {m : Punct} : Rereads (expect m) (.mark m :: cs) cs fun _ => True :=
  rereads_first single_mark fun s kind => by
    rw [expect, if_pos (Cursor.at?_iff.mpr kind)]
    exact ⟨_, rfl, trivial⟩

/-- The mark is taken, and the reader goes on. -/
theorem rereads_mark {m : Punct} {k : Unit → Parser β} (rereads : Rereads (k ()) cs ds R) :
    Rereads (discard (expect m) >>= k) (.mark m :: cs) ds R :=
  rereads_expect.discard.bind fun _ _ => rereads

theorem rereads_expectKeyword {w : Keyword} :
    Rereads (expectKeyword w) (.word w :: cs) cs fun _ => True :=
  rereads_first single_word fun s kind => by
    rw [expectKeyword, if_pos (Cursor.atKeyword_iff.mpr kind)]
    exact ⟨_, rfl, trivial⟩

theorem rereads_word {w : Keyword} {k : Unit → Parser β} (rereads : Rereads (k ()) cs ds R) :
    Rereads (discard (expectKeyword w) >>= k) (.word w :: cs) ds R :=
  rereads_expectKeyword.discard.bind fun _ _ => rereads

/-- The word is taken for whatever it is, and the reader goes on. -/
theorem rereads_bump {w : Keyword} {k : Token → Parser β} (rereads : ∀ t, Rereads (k t) cs ds R) :
    Rereads (bump >>= k) (.word w :: cs) ds R :=
  (rereads_first (Q := fun _ => True) single_word fun _ _ => ⟨_, rfl, trivial⟩).bind
    fun t _ => rereads t

theorem rereads_discardBump {w : Keyword} {k : Unit → Parser β} (rereads : Rereads (k ()) cs ds R) :
    Rereads (discard bump >>= k) (.word w :: cs) ds R :=
  (rereads_first (Q := fun _ => True) single_word fun _ _ => ⟨_, rfl, trivial⟩).discard.bind
    fun _ _ => rereads

theorem rereads_eat {m : Punct} {k : Bool → Parser β} (rereads : Rereads (k true) cs ds R) :
    Rereads (eat m >>= k) (.mark m :: cs) ds R := by
  refine (rereads_first (Q := (· = true)) single_mark fun s kind => ?_).bind fun b taken => ?_
  · rw [eat, if_pos (Cursor.at?_iff.mpr kind)]
    exact ⟨_, rfl, rfl⟩
  · rwa [taken]

theorem rereads_eat_absent {m : Punct} {k : Bool → Parser β} (other : front cs ≠ .punct m)
    (rereads : Rereads (k false) cs ds R) : Rereads (eat m >>= k) cs ds R :=
  rereads.congr fun s spelled => by
    rw [bind_apply, eat, if_neg (by rwa [Cursor.at?_iff, s.kind_of_spelled spelled])]

theorem rereads_eatKeyword {w : Keyword} {k : Bool → Parser β}
    (rereads : Rereads (k true) cs ds R) : Rereads (eatKeyword w >>= k) (.word w :: cs) ds R := by
  refine (rereads_first (Q := (· = true)) single_word fun s kind => ?_).bind fun b taken => ?_
  · rw [eatKeyword, if_pos (Cursor.atKeyword_iff.mpr kind)]
    exact ⟨_, rfl, rfl⟩
  · rwa [taken]

theorem rereads_eatKeyword_absent {w : Keyword} {k : Bool → Parser β}
    (other : front cs ≠ .keyword w) (rereads : Rereads (k false) cs ds R) :
    Rereads (eatKeyword w >>= k) cs ds R :=
  rereads.congr fun s spelled => by
    rw [bind_apply, eatKeyword, if_neg (by rwa [Cursor.atKeyword_iff, s.kind_of_spelled spelled])]

/-- What takes the tokens of a chunk, and no brace, takes the chunk. -/
theorem rereads_of_accepts {c : Chunk}
    (accepts : ∀ s us vs, s.rest = us ++ vs → c.Spells us vs →
      (∀ t ∈ vs.head?, t.kind = front cs) → Accepts p s us Q) : Rereads p (c :: cs) cs Q := by
  rintro s ⟨us, vs, rest, spells, spelled⟩
  obtain ⟨a, t, read, passed, holds⟩ := accepts s us vs rest spells fun _ => kind_of_head spelled
  refine ⟨a, t, read, ?_, passed.errors, holds⟩
  rwa [passed.left rest]

theorem rereads_ident {i : Ident} :
    Rereads ident (.ident i :: cs) cs fun j => j.unplaced = i.unplaced :=
  rereads_of_accepts fun s us vs rest spells _ => by
    cases spells with
    | ident names => exact accepts_ident rest names

theorem rereads_scopedName {n : ScopedName} (ends : front cs ≠ .punct .colonColon) :
    Rereads scopedName (.name n :: cs) cs fun m => m.unplaced = n.unplaced :=
  rereads_of_accepts fun s us vs rest spells next => by
    cases spells with
    | name spelled => exact accepts_scopedName spelled rest fun t mem => by rwa [next t mem]

theorem rereads_stringLiteral {text : String} (ends : front cs ≠ .literal .string) :
    Rereads stringLiteral (.text text :: cs) cs (· = text) :=
  rereads_of_accepts fun s us vs rest spells next => by
    cases spells with
    | text quotes =>
      have known : (s.kind == .literal .string) = true := by
        rw [Cursor.kind_of_rest rest, quotes.kind]
        rfl
      have run := accepts_stringRun quotes .nil rest fun t mem => by rwa [next t mem]
      rw [List.flatten_nil, List.append_nil, String.ofList_toList] at run
      exact accepts_test known (run.bindPure fun r _ _ same => .pure same)

/-! Repeating. -/

section

variable {stop : Cursor → Bool} {item : Parser α} {f : α → List Chunk} {g : α → β}
  {F : List Chunk → Prop} {as : List α}

/-- The item is read from its chunks where what follows allows it, and it may then follow itself. -/
structure Item (stop : Cursor → Bool) (item : Parser α) (f : α → List Chunk) (g : α → β)
    (F : List Chunk → Prop) (a : α) : Prop where
  some : kinds (f a) ≠ []
  follows : ∀ ds, F ds → F (f a ++ ds)
  going : ∀ ds, F ds → ∀ s : Cursor, Spelled (f a ++ ds) s.rest → stop s = false
  rereads : ∀ ds, F ds → Rereads item (f a ++ ds) ds fun b => g b = g a

theorem Item.follows_flatMap (items : ∀ a ∈ as, Item stop item f g F a) (last : F cs) :
    F (as.flatMap f ++ cs) := by
  induction as with
  | nil => exact last
  | cons a as ih =>
    rw [List.forall_mem_cons] at items
    rw [List.flatMap_cons, List.append_assoc]
    exact items.1.follows _ (ih items.2)

theorem rereads_many (items : ∀ a ∈ as, Item stop item f g F a) (last : F cs)
    (stops : ∀ s : Cursor, Spelled cs s.rest → stop s = true) :
    Rereads (many stop item) (as.flatMap f ++ cs) cs fun bs => bs.map g = as.map g := by
  induction as with
  | nil =>
    intro s spelled
    refine ⟨[], s, ?_, spelled, rfl, rfl⟩
    rw [many_eq, if_pos (stops s spelled)]
  | cons a as ih =>
    intro s spelled
    have behind := Item.follows_flatMap (fun b mem => items b (List.mem_cons_of_mem _ mem)) last
    rw [List.forall_mem_cons] at items
    rw [List.flatMap_cons, List.append_assoc] at spelled
    obtain ⟨b, t, read, spelled', errors, same⟩ := items.1.rereads _ behind s spelled
    obtain ⟨bs, u, read', spelled'', errors', more⟩ := ih items.2 t spelled'
    refine ⟨b :: bs, u, ?_, spelled'', errors'.trans errors, by simp [same, more]⟩
    rw [many_eq, if_neg (by simp [items.1.going _ behind s spelled]), read]
    simp only [if_pos (shorter_of_spelled items.1.some spelled spelled'), read']
    rfl

/-- Items that may fail one by one are all read. -/
theorem itemList_of_spelled (items : ∀ a ∈ as, Item stop item f g F a) (last : F cs)
    (stops : ∀ s : Cursor, Spelled cs s.rest → stop s = true) {s : Cursor}
    (spelled : Spelled (as.flatMap f ++ cs) s.rest) :
    (itemList stop item s).1.map g = as.map g ∧ Spelled cs (itemList stop item s).2.rest ∧
      (itemList stop item s).2.errors = s.errors := by
  induction as generalizing s with
  | nil =>
    rw [itemList, if_pos (stops s spelled)]
    exact ⟨rfl, spelled, rfl⟩
  | cons a as ih =>
    have behind := Item.follows_flatMap (fun b mem => items b (List.mem_cons_of_mem _ mem)) last
    rw [List.forall_mem_cons] at items
    rw [List.flatMap_cons, List.append_assoc] at spelled
    obtain ⟨b, t, read, spelled', errors, same⟩ := items.1.rereads _ behind s spelled
    obtain ⟨more, spelled'', errors'⟩ := ih items.2 spelled'
    rw [itemList, if_neg (by simp [items.1.going _ behind s spelled]), read]
    simp only [if_pos (shorter_of_spelled items.1.some spelled spelled')]
    exact ⟨by simp [same, more], spelled'', errors'.trans errors⟩

/-- An item of a body ends by itself, whatever follows. -/
theorem Item.of_body {a : α} (some : kinds (f a) ≠ [])
    (opens : ∀ ds, front (f a ++ ds) ≠ .punct .rightBrace)
    (rereads : ∀ ds, Rereads item (f a ++ ds) ds fun b => g b = g a) :
    Item atClose item f g (fun _ => True) a where
  some := some
  follows _ _ := trivial
  going ds _ s spelled := by
    rw [atClose_of_spelled spelled]
    simp [opens, some]
  rereads ds _ := rereads ds

theorem atClose_of_brace (brace : front cs = .punct .rightBrace) (s : Cursor)
    (spelled : Spelled cs s.rest) : atClose s = true := by
  rw [atClose_of_spelled spelled, brace]
  rfl

theorem rereads_body (items : ∀ a ∈ as, Item atClose item f g (fun _ => True) a)
    (brace : front cs = .punct .rightBrace) :
    Rereads (many atClose item) (as.flatMap f ++ cs) cs fun bs => bs.map g = as.map g :=
  rereads_many items trivial (atClose_of_brace brace)

theorem rereads_bodyItems (items : ∀ a ∈ as, Item atClose item f g (fun _ => True) a)
    (brace : front cs = .punct .rightBrace) :
    Rereads (bodyItems item) (as.flatMap f ++ cs) cs fun bs => bs.map g = as.map g := by
  intro s spelled
  obtain ⟨same, spelled, errors⟩ :=
    itemList_of_spelled items trivial (atClose_of_brace brace) spelled
  exact ⟨_, _, rfl, spelled, errors, same⟩

/-- Items with commas between them. What follows one is a comma or what follows them all. -/
theorem rereads_commaList (some : as ≠ [])
    (each : ∀ a ∈ as, ∀ ds, front ds = .punct .comma ∨ front ds = front cs →
      Rereads item (f a ++ ds) ds fun b => g b = g a)
    (last : front cs ≠ .punct .comma) :
    Rereads (commaList item) (commas f as ++ cs) cs fun bs => bs.map g = as.map g := by
  obtain ⟨a, as, rfl⟩ := List.exists_cons_of_ne_nil some
  rw [List.forall_mem_cons] at each
  have items : ∀ b ∈ as, Item (fun s => !s.at? .comma) (do discard (expect .comma); item)
      (fun b => .mark .comma :: .blank :: f b) g
      (fun ds => front ds = .punct .comma ∨ front ds = front cs) b := by
    refine fun b mem => ⟨by simp [Chunk.kinds], fun ds _ => .inl rfl, fun ds _ s spelled => ?_,
      fun ds follows => rereads_mark (.skip (each.2 b mem ds follows))⟩
    rw [s.at?_of_spelled spelled]
    rfl
  have stops (s : Cursor) (spelled : Spelled cs s.rest) : (!s.at? .comma) = true := by
    simpa [s.at?_of_spelled spelled] using last
  have behind := Item.follows_flatMap items (.inr rfl)
  rw [commas, List.append_assoc]
  refine (each.1 _ behind).bind fun b same => ?_
  exact (rereads_many items (.inr rfl) stops).bind fun bs more => .pure (by simp [same, more])

end

end

end Grammar

end Idl
