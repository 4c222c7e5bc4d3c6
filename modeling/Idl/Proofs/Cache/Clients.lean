import Idl.Cache
import Mathlib.Data.List.Basic

/-!
Clients that share one cache. A client looks its request up and, if there is no document for it,
makes one and stores it; between the two, other clients may do anything, and the cache may be
emptied. Main statement: `answers_fresh`. What keys collide does not matter to any answer.
-/

set_option autoImplicit false

namespace Idl

/-- What a client wants the document of. -/
structure Request where
  options : ParseOptions
  text : String
deriving DecidableEq, Repr

/-- The document that is made for a request. -/
def Request.document (r : Request) : Document := Document.ofText r.options r.text

namespace SchemaCache

variable {κ : Type} [DecidableEq κ]

/-- The document that a request would find, were there no collisions. -/
def slot? (c : SchemaCache κ) (key : ParseOptions → String → κ) (r : Request) :
    Option SharedDocument :=
  c.entries.lookup (key r.options r.text)

/-- Each document of the cache is as it would be made anew, and stands under its own key. -/
structure Faithful (key : ParseOptions → String → κ) (c : SchemaCache κ) : Prop where
  made : ∀ k d, c.entries.lookup k = some d → ∃ r : Request, d.document = r.document ∧
    key r.options r.text = k

/-- Whatever is stored in `c` is stored in `c'` under the same key. -/
def Extends (c c' : SchemaCache κ) : Prop :=
  ∀ k d, c.entries.lookup k = some d → c'.entries.lookup k = some d

variable {key : ParseOptions → String → κ} {c : SchemaCache κ} {r : Request} {d : SharedDocument}

theorem faithful_empty : Faithful key (empty : SchemaCache κ) :=
  ⟨fun k d found => by cases found⟩

theorem Extends.refl (c : SchemaCache κ) : Extends c c := fun _ _ found => found

theorem Extends.trans {c c' c'' : SchemaCache κ} (first : Extends c c') (second : Extends c' c'') :
    Extends c c'' := fun k d found => second k d (first k d found)

theorem madeFrom_iff : madeFrom d r.options r.text = true ↔
    d.document.source = r.text ∧ d.document.options = r.options := by
  simp [madeFrom]

/-- A document made for one request was made from another only if they are the same. -/
theorem madeFrom_of_document {other : Request} (made : d.document = other.document) :
    madeFrom d r.options r.text = true ↔ other = r := by
  rw [madeFrom_iff, made]
  have source : other.document.source = other.text := rfl
  have options : other.document.options = other.options := rfl
  rw [source, options]
  constructor
  · rintro ⟨text, options⟩
    cases other
    cases r
    simp_all
  · rintro rfl
    exact ⟨rfl, rfl⟩

theorem Faithful.document (faithful : Faithful key c) {k : κ} (found : c.entries.lookup k = some d)
    (made : madeFrom d r.options r.text = true) : d.document = r.document := by
  obtain ⟨other, document, -⟩ := faithful.made k d found
  rw [madeFrom_of_document document] at made
  rw [document, made]

theorem get?_eq_some_iff : c.get? key r.options r.text = some d ↔
    c.slot? key r = some d ∧ madeFrom d r.options r.text = true := by
  rw [get?, Option.filter_eq_some_iff]
  rfl

/-! What storing a document does. -/

/-- What is stored for a request, and what the one who stores it is given. -/
structure Stored (key : ParseOptions → String → κ) (c : SchemaCache κ) (r : Request)
    (given : SharedDocument) (c' : SchemaCache κ) : Prop where
  faithful : Faithful key c'
  extends_ : Extends c c'
  document : given.document = r.document
  held : ∃ d, c'.slot? key r = some d ∧ (madeFrom d r.options r.text = true → given = d)

theorem stored_insert (faithful : Faithful key c) (made : d.document = r.document) :
    Stored key c r (c.insert key d).1 (c.insert key d).2 := by
  have options : d.document.options = r.options := by rw [made]; rfl
  have source : d.document.source = r.text := by rw [made]; rfl
  rw [insert]
  simp only [options, source]
  cases found : c.entries.lookup (key r.options r.text) with
  | none =>
    dsimp only
    constructor
    case document => exact made
    case held => exact ⟨d, by simp [slot?], fun _ => rfl⟩
    case faithful =>
      constructor
      intro k other stored
      rw [List.lookup_cons] at stored
      split at stored
      · next same =>
        cases stored
        exact ⟨r, made, (beq_iff_eq.mp same).symm⟩
      · exact faithful.made k other stored
    case extends_ =>
      intro k other stored
      have apart : (k == key r.options r.text) = false := by
        rw [beq_eq_false_iff_ne]
        rintro rfl
        rw [found] at stored
        cases stored
      rw [List.lookup_cons, apart]
      exact stored
  | some old =>
    dsimp only
    constructor
    case faithful => exact faithful
    case extends_ => exact Extends.refl c
    case held => exact ⟨old, found, fun same => by rw [if_pos same]⟩
    case document =>
      split
      · next same => exact faithful.document found same
      · exact made

end SchemaCache

/-! Clients. -/

/-- What a client is at. -/
inductive Client
  | idle
  /-- Its lookup found nothing, and it makes the document itself. -/
  | making (request : Request)

/-- The document that a client was given for its request. -/
structure Answer where
  request : Request
  given : SharedDocument

/-- A cache, its clients, and all answers so far, the first one first. -/
structure Service (κ ι : Type) where
  cache : SchemaCache κ
  /-- The number of the document that is made next. -/
  next : Nat
  clients : ι → Client
  answers : List Answer

/-- What happens at one moment. -/
inductive Event (ι : Type)
  | lookup (client : ι) (request : Request)
  | store (client : ι)
  | clear
deriving DecidableEq

namespace Service

variable {κ ι : Type} [DecidableEq κ] [DecidableEq ι]

/-- Nothing is stored, and no client has asked for anything. -/
def start : Service κ ι := ⟨.empty, 0, fun _ => .idle, []⟩

/-- The client is at something else from now on. -/
def turn (s : Service κ ι) (i : ι) (c : Client) : ι → Client := Function.update s.clients i c

/-- An idle client looks its request up; one that found nothing stores the document that it has
made meanwhile. No other client can. -/
def step? (key : ParseOptions → String → κ) (s : Service κ ι) : Event ι → Option (Service κ ι)
  | .lookup i r =>
    match s.clients i with
    | .making _ => none
    | .idle =>
      match s.cache.get? key r.options r.text with
      | some d => some { s with answers := s.answers ++ [⟨r, d⟩] }
      | none => some { s with clients := s.turn i (.making r) }
  | .store i =>
    match s.clients i with
    | .idle => none
    | .making r =>
      let (d, cache) := s.cache.insert key ⟨s.next, r.document⟩
      some ⟨cache, s.next + 1, s.turn i .idle, s.answers ++ [⟨r, d⟩]⟩
  | .clear => some { s with cache := s.cache.clear }

/-- The events take place one after another. -/
def run? (key : ParseOptions → String → κ) : Service κ ι → List (Event ι) → Option (Service κ ι)
  | s, [] => some s
  | s, e :: es => (s.step? key e).bind (run? key · es)

variable {key : ParseOptions → String → κ} {s u : Service κ ι}

/-- What a client does that nothing comes between. -/
def call (key : ParseOptions → String → κ) (s : Service κ ι) (i : ι) (r : Request) :
    List (Event ι) :=
  if (s.cache.get? key r.options r.text).isSome then [.lookup i r] else [.lookup i r, .store i]

/-- Such a client is given what the cache gives it in one go. -/
theorem run?_call (i : ι) (r : Request) (idle : s.clients i = .idle) :
    (s.run? key (s.call key i r)).map (fun u => (u.answers, u.cache)) =
      let (d, cache) := s.cache.getOrInsert key r.options r.text fun () => ⟨s.next, r.document⟩
      some (s.answers ++ [⟨r, d⟩], cache) := by
  cases found : s.cache.get? key r.options r.text with
  | some d => simp [call, run?, step?, idle, found, SchemaCache.getOrInsert]
  | none => simp [call, run?, step?, idle, found, SchemaCache.getOrInsert, turn]

/-- The event adds no answer but right ones, and unless it empties the cache, each of them is what
the cache holds for the request from then on. -/
structure Moved (key : ParseOptions → String → κ) (s : Service κ ι) (u : Service κ ι)
    (new : List Answer) : Prop where
  faithful : u.cache.Faithful key
  answers : u.answers = s.answers ++ new
  fresh : ∀ a ∈ new, a.given.document = a.request.document

/-- Besides, nothing that was stored is lost. -/
structure Kept (key : ParseOptions → String → κ) (s : Service κ ι) (u : Service κ ι)
    (new : List Answer) : Prop extends Moved key s u new where
  extends_ : s.cache.Extends u.cache
  held : ∀ a ∈ new, ∃ d, u.cache.slot? key a.request = some d ∧
    (SchemaCache.madeFrom d a.request.options a.request.text = true → a.given = d)

theorem kept_of_step? (faithful : s.cache.Faithful key) {e : Event ι} (going : e ≠ .clear)
    (step : s.step? key e = some u) : ∃ new, Kept key s u new := by
  cases e with
  | clear => exact absurd rfl going
  | lookup i r =>
    simp only [step?] at step
    split at step
    · cases step
    · split at step
      · next d found =>
        cases step
        obtain ⟨slot, made⟩ := SchemaCache.get?_eq_some_iff.mp found
        refine ⟨[⟨r, d⟩], ⟨⟨faithful, rfl, ?_⟩, SchemaCache.Extends.refl _, ?_⟩⟩
        · simpa using faithful.document slot made
        · simpa using ⟨d, slot, fun _ => rfl⟩
      · cases step
        exact ⟨[], ⟨⟨faithful, by simp, by simp⟩, SchemaCache.Extends.refl _, by simp⟩⟩
  | store i =>
    simp only [step?] at step
    split at step
    · cases step
    · next r making =>
      cases step
      have stored : SchemaCache.Stored key s.cache r _ _ :=
        SchemaCache.stored_insert faithful (d := ⟨s.next, r.document⟩) rfl
      refine ⟨[⟨r, _⟩], ⟨⟨stored.faithful, rfl, ?_⟩, stored.extends_, ?_⟩⟩
      · simpa using stored.document
      · simpa using stored.held

theorem moved_of_step? (faithful : s.cache.Faithful key) {e : Event ι}
    (step : s.step? key e = some u) : ∃ new, Moved key s u new := by
  cases e with
  | clear =>
    cases step
    exact ⟨[], SchemaCache.faithful_empty, by simp, by simp⟩
  | _ =>
    obtain ⟨new, kept⟩ := kept_of_step? faithful (by simp) step
    exact ⟨new, kept.toMoved⟩

/-- Through any events, answers are right and so is the cache. -/
theorem moved_of_run? {events : List (Event ι)} (faithful : s.cache.Faithful key)
    (run : s.run? key events = some u) : ∃ new, Moved key s u new := by
  induction events generalizing s with
  | nil =>
    cases run
    exact ⟨[], faithful, by simp, by simp⟩
  | cons e events ih =>
    obtain ⟨t, step, rest⟩ := Option.bind_eq_some_iff.mp run
    obtain ⟨first, moved⟩ := moved_of_step? faithful step
    obtain ⟨more, moved'⟩ := ih moved.faithful rest
    refine ⟨first ++ more, moved'.faithful, ?_, ?_⟩
    · rw [moved'.answers, moved.answers, List.append_assoc]
    · intro a mem
      rcases List.mem_append.mp mem with mem | mem
      · exact moved.fresh a mem
      · exact moved'.fresh a mem

/-- Between two times that the cache is emptied, what is stored stays. -/
theorem kept_of_run? {events : List (Event ι)} (faithful : s.cache.Faithful key)
    (going : Event.clear ∉ events) (run : s.run? key events = some u) :
    ∃ new, Kept key s u new := by
  induction events generalizing s with
  | nil =>
    cases run
    exact ⟨[], ⟨⟨faithful, by simp, by simp⟩, SchemaCache.Extends.refl _, by simp⟩⟩
  | cons e events ih =>
    obtain ⟨t, step, rest⟩ := Option.bind_eq_some_iff.mp run
    rw [List.mem_cons, not_or] at going
    obtain ⟨first, kept⟩ := kept_of_step? faithful (Ne.symm going.1) step
    obtain ⟨more, kept'⟩ := ih kept.faithful going.2 rest
    refine ⟨first ++ more, ⟨⟨kept'.faithful, ?_, ?_⟩, kept.extends_.trans kept'.extends_, ?_⟩⟩
    · rw [kept'.answers, kept.answers, List.append_assoc]
    · intro a mem
      rcases List.mem_append.mp mem with mem | mem
      · exact kept.fresh a mem
      · exact kept'.fresh a mem
    · intro a mem
      rcases List.mem_append.mp mem with mem | mem
      · obtain ⟨d, slot, same⟩ := kept.held a mem
        exact ⟨d, kept'.extends_ _ d slot, same⟩
      · exact kept'.held a mem

/-- Stored documents and answers are always as they would be made anew. As long as the cache is
not emptied, what it stores stays, and all answers for one request are one document, unless the
place of the request is taken by another. -/
theorem answers_fresh (key : ParseOptions → String → κ) {events later : List (Event ι)}
    {s u : Service κ ι} (run : start.run? key events = some s)
    (after : s.run? key later = some u) (going : Event.clear ∉ later) :
    (∀ k d, s.cache.entries.lookup k = some d →
      ∃ r : Request, d.document = r.document ∧ key r.options r.text = k) ∧
    (∀ a ∈ s.answers, a.given.document = a.request.document) ∧
    s.cache.Extends u.cache ∧
    ∃ new, u.answers = s.answers ++ new ∧ ∀ a ∈ new, ∀ b ∈ new, a.request = b.request →
      (∀ d, u.cache.slot? key a.request = some d →
        SchemaCache.madeFrom d a.request.options a.request.text = true) →
      a.given = b.given := by
  obtain ⟨old, moved⟩ := moved_of_run? SchemaCache.faithful_empty run
  obtain ⟨new, kept⟩ := kept_of_run? moved.faithful going after
  refine ⟨moved.faithful.made, fun a mem => ?_, kept.extends_, new, kept.answers, ?_⟩
  · rw [moved.answers] at mem
    exact moved.fresh a mem
  · intro a mem b mem' same own
    obtain ⟨d, slot, given⟩ := kept.held a mem
    obtain ⟨d', slot', given'⟩ := kept.held b mem'
    rw [← same, slot, Option.some_inj] at slot'
    subst slot'
    rw [← same] at given'
    exact (given (own d slot)).trans (given' (own d slot)).symm

/-- Two clients miss and both make the document; all keys being alike, a third request collides. -/
theorem answers_fresh_of_race :
    ∃ s u : Service Unit Bool,
      start.run? (fun _ _ => ()) [.lookup true ⟨{}, ""⟩, .lookup false ⟨{}, ""⟩] = some s ∧
      s.run? (fun _ _ => ())
        [.store true, .store false, .lookup true ⟨{}, "module"⟩, .store true] = some u ∧
      u.answers.length = 3 ∧ s.cache.Extends u.cache ∧
      ∃ new, u.answers = s.answers ++ new ∧ ∀ a ∈ new, ∀ b ∈ new, a.request = b.request →
        (∀ d, u.cache.slot? (fun _ _ => ()) a.request = some d →
          SchemaCache.madeFrom d a.request.options a.request.text = true) →
        a.given = b.given := by
  obtain ⟨s, run⟩ : ∃ s : Service Unit Bool, start.run? (fun _ _ => ())
      [.lookup true ⟨{}, ""⟩, .lookup false ⟨{}, ""⟩] = some s := ⟨_, rfl⟩
  obtain ⟨u, after, three⟩ : ∃ u, s.run? (fun _ _ => ())
      [.store true, .store false, .lookup true ⟨{}, "module"⟩, .store true] = some u ∧
      u.answers.length = 3 := by
    cases run
    exact ⟨_, rfl, rfl⟩
  exact ⟨s, u, run, after, three, (answers_fresh _ run after (by decide)).2.2⟩

end Service

end Idl
