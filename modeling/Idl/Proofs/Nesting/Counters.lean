import Idl.Grammar.Expr
import Idl.Proofs.Lockstep.Repeat

/-!
Readers that count. A reader is told how deep it may still go; one that counts keeps the levels it
has entered and the lists of template arguments that are open instead. Where it enters something
it leaves it again, also if the reader inside fails. Main statements: `Bracketed.restores` and the
rules of `Counts`.
-/

set_option autoImplicit false

namespace Idl.Grammar

variable {α β : Type}

structure Counters where
  /-- The limit on nesting. -/
  limit : Nat
  /-- The levels entered and not left yet. -/
  nesting : Nat
  /-- The lists of template arguments entered and not left yet. -/
  templates : Nat

/-- How deep a reader may still go. -/
def Counters.level (c : Counters) : Level := ⟨c.limit, c.limit - c.nesting, 0 < c.templates⟩

/-- The state of a reader that counts. -/
structure Counting where
  counters : Counters
  cursor : Cursor

abbrev Counted (α : Type) : Type := EStateM SyntaxError Counting α

/-- The outcome with the counters. -/
def counted (c : Counters) : Outcome α → EStateM.Result SyntaxError Counting α
  | .ok a t => .ok a ⟨c, t⟩
  | .error e t => .error e ⟨c, t⟩

/-- The counters that a reader leaves. -/
def countersLeft : EStateM.Result SyntaxError Counting α → Counters
  | .ok _ t => t.counters
  | .error _ t => t.counters

@[simp] theorem countersLeft_counted (c : Counters) (r : Outcome α) :
    countersLeft (counted c r) = c := by
  cases r <;> rfl

/-! Ways to count. -/

namespace Counted

/-- Reads without counting. -/
def plain (p : Parser α) : Counted α := fun s => counted s.counters (p s.cursor)

/-- Changes the counters for `q` alone. Whether `q` returns or fails, `leave` sees what they were
and what they have come to. -/
def around (enter : Counters → Counters) (leave : Counters → Counters → Counters)
    (q : Counted α) : Counted α := fun s =>
  match q { s with counters := enter s.counters } with
  | .ok a t => .ok a { t with counters := leave s.counters t.counters }
  | .error e t => .error e { t with counters := leave s.counters t.counters }

/-- One level down, if the limit allows it. -/
def nested (q : Counted α) : Counted α := fun s =>
  if s.counters.limit ≤ s.counters.nesting then plain (tooDeep s.counters.limit) s
  else around (fun c => { c with nesting := c.nesting + 1 })
    (fun _ c => { c with nesting := c.nesting - 1 }) q s

/-- In a list of template arguments. -/
def templated (q : Counted α) : Counted α :=
  around (fun c => { c with templates := c.templates + 1 })
    (fun _ c => { c with templates := c.templates - 1 }) q

/-- Outside of all lists of template arguments. -/
def cleared (q : Counted α) : Counted α :=
  around (fun c => { c with templates := 0 })
    (fun before c => { c with templates := before.templates }) q

/-- Whether template arguments are open. -/
def within (q : Bool → Counted α) : Counted α := fun s => q (0 < s.counters.templates) s

/-- Takes an operator, which counts against the limit beside the levels that were entered. -/
def operator (op : BinaryOp) (tokens : Nat) : Counted BinaryOp := fun s =>
  let t := s.cursor.bump
  let t := if tokens = 2 then t.bump else t
  let t := { t with operators := t.operators + 1 }
  if s.counters.limit < s.counters.nesting + t.operators then
    .error (.tooDeep s.counters.limit t.previous) { s with cursor := t }
  else .ok op { s with cursor := t }

/-- Reads items until `stop` holds. -/
def many (stop : Cursor → Bool) (item : Counted α) (s : Counting) :
    EStateM.Result SyntaxError Counting (List α) :=
  if stop s.cursor then .ok [] s
  else
    match item s with
    | .error e t => .error e t
    | .ok a t =>
      if t.cursor.rest.length < s.cursor.rest.length then
        match many stop item t with
        | .ok more u => .ok (a :: more) u
        | .error e u => .error e u
      else .ok [a] t
termination_by s.cursor.rest.length

/-- Reads items until `stop` holds. An item that fails is reported and left out. -/
def itemList (stop : Cursor → Bool) (item : Counted α) (s : Counting) : List α × Counting :=
  if stop s.cursor then ([], s)
  else
    match item s with
    | .ok a t =>
      if t.cursor.rest.length < s.cursor.rest.length then
        let (more, u) := itemList stop item t
        (a :: more, u)
      else ([a], t)
    | .error e failed =>
      let t := { failed with cursor := resume s.cursor e failed.cursor }
      if t.cursor.rest.length < s.cursor.rest.length then itemList stop item t else ([], t)
termination_by s.cursor.rest.length

def items (stop : Cursor → Bool) (item : Counted α) : Counted (List α) := fun s =>
  let (as, t) := itemList stop item s
  .ok as t

end Counted

/-- A reader that changes counters in no other way than these. -/
inductive Bracketed : {α : Type} → Counted α → Prop
  | plain {α : Type} (p : Parser α) : Bracketed (.plain p)
  | bind {α β : Type} {q : Counted α} {k : α → Counted β} (first : Bracketed q)
      (second : ∀ a, Bracketed (k a)) : Bracketed (q >>= k)
  | many {α : Type} {item : Counted α} (stop : Cursor → Bool) (one : Bracketed item) :
      Bracketed (Counted.many stop item)
  | items {α : Type} {item : Counted α} (stop : Cursor → Bool) (one : Bracketed item) :
      Bracketed (.items stop item)
  | nested {α : Type} {q : Counted α} (inside : Bracketed q) : Bracketed (.nested q)
  | templated {α : Type} {q : Counted α} (inside : Bracketed q) : Bracketed (.templated q)
  | cleared {α : Type} {q : Counted α} (inside : Bracketed q) : Bracketed (.cleared q)
  | within {α : Type} {q : Bool → Counted α} (either : ∀ b, Bracketed (q b)) :
      Bracketed (.within q)
  | operator (op : BinaryOp) (tokens : Nat) : Bracketed (.operator op tokens)

/-! What they leave. -/

/-- Whether the reader returns or fails, the counters are what they were. -/
def Restores (q : Counted α) : Prop := ∀ s, countersLeft (q s) = s.counters

namespace Restores

variable {q : Counted α} (restores : Restores q)

include restores

theorem ok {s t : Counting} {a : α} (read : q s = .ok a t) : t.counters = s.counters := by
  have left := restores s
  rwa [read] at left

theorem error {s t : Counting} {e : SyntaxError} (failed : q s = .error e t) :
    t.counters = s.counters := by
  have left := restores s
  rwa [failed] at left

theorem bind {k : α → Counted β} (second : ∀ a, Restores (k a)) : Restores (q >>= k) := by
  intro s
  change countersLeft (EStateM.bind q k s) = _
  rw [EStateM.bind]
  split
  · next a t read => exact (second a t).trans (restores.ok read)
  · next e t failed => exact restores.error failed

theorem around {enter : Counters → Counters} {leave : Counters → Counters → Counters}
    (undoes : ∀ c, leave c (enter c) = c) : Restores (Counted.around enter leave q) := by
  intro s
  rw [Counted.around]
  split
  · next a t read =>
    change leave s.counters t.counters = s.counters
    rw [restores.ok read]
    exact undoes s.counters
  · next e t failed =>
    change leave s.counters t.counters = s.counters
    rw [restores.error failed]
    exact undoes s.counters

theorem nested : Restores (Counted.nested q) := by
  intro s
  rw [Counted.nested]
  split
  · exact countersLeft_counted _ _
  · exact restores.around (fun _ => rfl) s

theorem many (stop : Cursor → Bool) : Restores (Counted.many stop q) := by
  intro s
  fun_induction Counted.many stop q s with
  | case1 s stopped => rfl
  | case2 s going e t failed => exact restores.error failed
  | case3 s going a t read shorter more u rest ih =>
    rw [rest] at ih
    exact ih.trans (restores.ok read)
  | case4 s going a t read shorter e u failed ih =>
    rw [failed] at ih
    exact ih.trans (restores.ok read)
  | case5 s going a t read longer => exact restores.ok read

theorem items (stop : Cursor → Bool) : Restores (Counted.items stop q) := by
  intro s
  change (Counted.itemList stop q s).2.counters = s.counters
  fun_induction Counted.itemList stop q s with
  | case1 s stopped => rfl
  | case2 s going a t read shorter more u rest ih =>
    rw [rest] at ih
    exact ih.trans (restores.ok read)
  | case3 s going a t read longer => exact restores.ok read
  | case4 s going e failed read t shorter ih => exact ih.trans (restores.error (t := failed) read)
  | case5 s going e failed read t longer => exact restores.error (t := failed) read

end Restores

theorem Bracketed.restores {q : Counted α} (bracketed : Bracketed q) : Restores q := by
  induction bracketed with
  | plain p => exact fun s => countersLeft_counted _ _
  | bind first second ih ih' => exact ih.bind ih'
  | many stop one ih => exact ih.many stop
  | items stop one ih => exact ih.items stop
  | nested inside ih => exact ih.nested
  | templated inside ih => exact ih.around fun _ => rfl
  | cleared inside ih => exact ih.around fun _ => rfl
  | within either ih => exact fun s => ih _ s
  | operator op tokens =>
    intro s
    rw [Counted.operator]
    generalize (if tokens = 2 then s.cursor.bump.bump else s.cursor.bump) = t
    dsimp only
    split <;> rfl

/-! What they compute. -/

/-- The counters leave `n` levels at most, and outside of types no template arguments are open. -/
structure Counters.Fits (n : Nat) (outside : Bool) (c : Counters) : Prop where
  left : c.limit - c.nesting ≤ n
  templates : outside = true → c.templates = 0

/-- Where the counters fit, a reader that counts does what this one does when it is told how deep
it may go. -/
def Counts (n : Nat) (outside : Bool) (p : Level → Parser α) : Prop :=
  ∃ q : Counted α, Bracketed q ∧
    ∀ (c : Counters) (s : Cursor), c.Fits n outside → q ⟨c, s⟩ = counted c (p c.level s)

/-- One level down. -/
def down (p : Level → Parser α) (l : Level) : Parser α :=
  match l.left with
  | 0 => tooDeep l.limit
  | left + 1 => p { l with left }

/-- Reads the items up to where `stop` holds. -/
def itemsUntil (stop : Cursor → Bool) (item : Parser α) : Parser (List α) := fun s =>
  let (items, t) := itemList stop item s
  .ok items t

section

variable {item : Parser α} {q : Counted α} {c : Counters}
  (same : ∀ s, q ⟨c, s⟩ = counted c (item s)) (stop : Cursor → Bool) (s : Cursor)

include same

theorem countedMany_eq : Counted.many stop q ⟨c, s⟩ = counted c (many stop item s) := by
  fun_induction many stop item s with
  | case1 s stopped => rw [Counted.many, if_pos stopped]; rfl
  | case2 s going e t failed => rw [Counted.many, if_neg going, same, failed]; rfl
  | case3 s going a t read shorter more u rest ih =>
    rw [Counted.many, if_neg going, same, read]
    simp only [counted]
    rw [if_pos shorter, ih, rest]
    rfl
  | case4 s going a t read shorter e u failed ih =>
    rw [Counted.many, if_neg going, same, read]
    simp only [counted]
    rw [if_pos shorter, ih, failed]
    rfl
  | case5 s going a t read longer =>
    rw [Counted.many, if_neg going, same, read]
    exact if_neg longer

theorem countedItemList_eq : Counted.itemList stop q ⟨c, s⟩ =
    ((itemList stop item s).1, ⟨c, (itemList stop item s).2⟩) := by
  fun_induction itemList stop item s with
  | case1 s stopped => rw [Counted.itemList, if_pos stopped]
  | case2 s going a t read shorter more u rest ih =>
    rw [Counted.itemList, if_neg going, same, read]
    simp only [counted]
    rw [if_pos shorter, ih, rest]
  | case3 s going a t read longer =>
    rw [Counted.itemList, if_neg going, same, read]
    exact if_neg longer
  | case4 s going e failed read t shorter ih =>
    -- the item that failed has left the counters alone, so the list goes on with the same ones
    rw [Counted.itemList, if_neg going, same, read]
    exact (if_pos shorter).trans ih
  | case5 s going e failed read t longer =>
    rw [Counted.itemList, if_neg going, same, read]
    exact if_neg longer

end

theorem counted_around {enter : Counters → Counters} {leave : Counters → Counters → Counters}
    {q : Counted α} {c : Counters} {s : Cursor} {r : Outcome α}
    (inside : q ⟨enter c, s⟩ = counted (enter c) r) (undoes : leave c (enter c) = c) :
    Counted.around enter leave q ⟨c, s⟩ = counted c r := by
  rw [Counted.around]
  dsimp only
  rw [inside]
  cases r with
  | ok a t => exact congrArg (fun c => EStateM.Result.ok a (Counting.mk c t)) undoes
  | error e t => exact congrArg (fun c => EStateM.Result.error e (Counting.mk c t)) undoes

namespace Counts

variable {n : Nat} {outside : Bool} {p p' : Level → Parser α}

theorem plain (p : Parser α) : Counts n outside fun _ => p := ⟨.plain p, .plain p, fun _ _ _ => rfl⟩

theorem bind {k : α → Level → Parser β} (first : Counts n outside p)
    (second : ∀ a, Counts n outside (k a)) : Counts n outside fun l => p l >>= fun a => k a l := by
  obtain ⟨q, bracketed, same⟩ := first
  -- what follows has a reader that counts for each value that may have been read
  choose f bracketed' same' using second
  refine ⟨q >>= f, bracketed.bind bracketed', fun c s fits => ?_⟩
  change EStateM.bind q f ⟨c, s⟩ = counted c (EStateM.bind (p c.level) (fun a => k a c.level) s)
  rw [EStateM.bind, same c s fits, EStateM.bind]
  cases p c.level s with
  | ok a t => exact same' a c t fits
  | error e t => rfl

/-- What follows a reader that counts nothing. -/
theorem behind {p : Parser α} {k : α → Level → Parser β}
    (rest : ∀ a, Counts n outside (k a)) : Counts n outside fun l => p >>= fun a => k a l :=
  (plain p).bind rest

/-- What is read may depend on what is next. -/
theorem look (f : Cursor → β) {k : β → Level → Parser α} (rest : ∀ b, Counts n outside (k b)) :
    Counts n outside fun l s => k (f s) l s :=
  (plain fun s => .ok (f s) s).bind rest

theorem map (f : α → β) (counts : Counts n outside p) : Counts n outside fun l => f <$> p l :=
  counts.bind fun _ => .plain _

theorem branch {b : Prop} [Decidable b] (yes : Counts n outside p) (no : Counts n outside p') :
    Counts n outside fun l => if b then p l else p' l := by
  by_cases holds : b
  · simpa only [if_pos holds] using yes
  · simpa only [if_neg holds] using no

theorem many (stop : Cursor → Bool) (item : Counts n outside p) :
    Counts n outside fun l => Grammar.many stop (p l) := by
  obtain ⟨q, bracketed, same⟩ := item
  exact ⟨_, bracketed.many stop, fun c s fits => countedMany_eq (fun t => same c t fits) stop s⟩

theorem manyAfter (mark : Punct) (item : Counts n outside p) :
    Counts n outside fun l => Grammar.manyAfter mark (p l) :=
  many _ (behind fun _ => item)

theorem commaList (item : Counts n outside p) :
    Counts n outside fun l => Grammar.commaList (p l) :=
  item.bind fun _ => (item.manyAfter _).bind fun _ => .plain _

theorem itemsUntil (stop : Cursor → Bool) (item : Counts n outside p) :
    Counts n outside fun l => Grammar.itemsUntil stop (p l) := by
  obtain ⟨q, bracketed, same⟩ := item
  refine ⟨_, bracketed.items stop, fun c s fits => ?_⟩
  rw [Counted.items, countedItemList_eq (fun t => same c t fits)]
  rfl

theorem bodyItems (item : Counts n outside p) :
    Counts n outside fun l => Grammar.bodyItems (p l) := item.itemsUntil atClose

/-- Another level is entered, and left. -/
theorem nested (inside : Counts n outside p) : Counts (n + 1) outside (down p) := by
  obtain ⟨q, bracketed, same⟩ := inside
  refine ⟨_, bracketed.nested, fun c s fits => ?_⟩
  obtain ⟨limit, nesting, templates⟩ := c
  have left : limit - nesting ≤ n + 1 := fits.left
  rw [Counted.nested, down, Counters.level]
  dsimp only
  -- the counters refuse a level where none is left, and only there
  by_cases deep : limit ≤ nesting
  · rw [if_pos deep, Nat.sub_eq_zero_of_le deep]
    rfl
  · obtain ⟨m, room⟩ : ∃ m, limit - nesting = m + 1 := ⟨limit - nesting - 1, by omega⟩
    have inside : limit - (nesting + 1) = m := by omega
    have eq := same ⟨limit, nesting + 1, templates⟩ s ⟨by dsimp only; omega, fits.templates⟩
    rw [Counters.level, inside] at eq
    rw [if_neg deep, room]
    exact counted_around eq rfl

/-- No level is left to be entered. -/
theorem atLimit : Counts 0 outside (down p) := by
  refine ⟨_, Bracketed.nested (.plain (tooDeep 0)), fun c s fits => ?_⟩
  have full : c.limit - c.nesting = 0 := Nat.le_zero.mp fits.left
  rw [Counted.nested, if_pos (Nat.le_of_sub_eq_zero full), down, Counters.level, full]
  rfl

theorem templated (inside : Counts n false p) :
    Counts n outside fun l => p { l with inTemplate := true } := by
  obtain ⟨q, bracketed, same⟩ := inside
  refine ⟨_, bracketed.templated, fun c s fits => ?_⟩
  have eq := same { c with templates := c.templates + 1 } s ⟨fits.left, nofun⟩
  have open' : decide (0 < c.templates + 1) = true := decide_eq_true (Nat.succ_pos _)
  rw [Counters.level, open'] at eq
  exact counted_around eq rfl

theorem cleared {b : Bool} (inside : Counts n b p) :
    Counts n outside fun l => p { l with inTemplate := false } := by
  obtain ⟨q, bracketed, same⟩ := inside
  refine ⟨_, bracketed.cleared, fun c s fits => ?_⟩
  exact counted_around (same { c with templates := 0 } s ⟨fits.left, fun _ => rfl⟩) rfl

/-- Outside of types it goes without saying that no template arguments are open. -/
theorem unmarked (inside : Counts n true p) :
    Counts n true fun l => p { l with inTemplate := false } := by
  obtain ⟨q, bracketed, same⟩ := inside
  refine ⟨q, bracketed, fun c s fits => (same c s fits).trans ?_⟩
  have closed : decide (0 < c.templates) = false := by rw [fits.templates rfl]; rfl
  rw [Counters.level, closed]

theorem within {p : Bool → Level → Parser α} (either : ∀ b, Counts n outside (p b)) :
    Counts n outside fun l => p l.inTemplate l := by
  choose q bracketed same using either
  exact ⟨_, .within bracketed, fun c s fits => same (0 < c.templates) c s fits⟩

theorem operator (op : BinaryOp) (tokens : Nat) :
    Counts n outside fun l => Grammar.operator l op tokens := by
  refine ⟨_, .operator op tokens, fun c s fits => ?_⟩
  change _ = counted c (Grammar.operator c.level op tokens s)
  rw [Counted.operator, Grammar.operator]
  generalize (if tokens = 2 then s.bump.bump else s.bump) = t
  have same : c.limit < c.nesting + (t.operators + 1) ↔ c.level.left < t.operators + 1 := by
    rw [Counters.level]
    dsimp only
    omega
  dsimp only
  by_cases deep : c.level.left < t.operators + 1
  · rw [if_pos (same.mpr deep), if_pos deep]
    rfl
  · rw [if_neg (mt same.mp deep), if_neg deep]
    rfl

/-- What may be read among template arguments may also be read outside of them. -/
theorem anywhere (inside : Counts n false p) : Counts n outside p := by
  obtain ⟨q, bracketed, same⟩ := inside
  exact ⟨q, bracketed, fun c s fits => same c s ⟨fits.left, nofun⟩⟩

end Counts

end Idl.Grammar
