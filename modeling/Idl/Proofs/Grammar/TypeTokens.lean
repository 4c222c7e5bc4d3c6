import Idl.Grammar.Type
import Idl.Proofs.Grammar.Precedence

/-!
Types as tokens, and how they are read back: base types, names and templates, with bounds in angles
where a closing angle ends no shift. Main statement: `accepts_typeSpecAt`.
-/

set_option autoImplicit false

namespace Idl

/-- The words of a base type. -/
def Primitive.words : Primitive → List Keyword
  | .short => [.short]
  | .ushort => [.unsigned, .short]
  | .long => [.long]
  | .ulong => [.unsigned, .long]
  | .longLong => [.long, .long]
  | .ulongLong => [.unsigned, .long, .long]
  | .int8 => [.int8]
  | .uint8 => [.uint8]
  | .int16 => [.int16]
  | .uint16 => [.uint16]
  | .int32 => [.int32]
  | .uint32 => [.uint32]
  | .int64 => [.int64]
  | .uint64 => [.uint64]
  | .float => [.float]
  | .double => [.double]
  | .longDouble => [.long, .double]
  | .char => [.char]
  | .wchar => [.wchar]
  | .boolean => [.boolean]
  | .octet => [.octet]
  | .any => [.any]
  | .object => [.object]
  | .valueBase => [.valueBase]

/-- What is left of a type without its places. A type that is constructed in place keeps them. -/
def TypeSpec.unplaced : TypeSpec → TypeSpec
  | .named t => .named ⟨t.name.unplaced, t.target⟩
  | .sequence element b => .sequence element.unplaced (b.map ConstExpr.unplaced)
  | .set element b => .set element.unplaced (b.map ConstExpr.unplaced)
  | .map key value b => .map key.unplaced value.unplaced (b.map ConstExpr.unplaced)
  | .string b => .string (b.map ConstExpr.unplaced)
  | .wstring b => .wstring (b.map ConstExpr.unplaced)
  | .fixed args => .fixed (args.map fun p => (p.1.unplaced, p.2.unplaced))
  | t => t

theorem TypeSpec.primitive_of_unplaced {t : TypeSpec} {k : Primitive}
    (same : t.unplaced = (TypeSpec.primitive k).unplaced) : t = .primitive k := by
  cases t <;> simp_all [TypeSpec.unplaced]

namespace Grammar

/-! Types as tokens. -/

/-- The tokens are the keywords. -/
def SpellsWords (ts : List Token) (words : List Keyword) : Prop :=
  List.Forall₂ (fun t word => t.kind = .keyword word) ts words

/-- The tokens stand between angles. -/
structure Angles (less greater : Token) : Prop where
  opening : less.kind = .punct .less
  closing : greater.kind = .punct .greater

/-- A template of one type and a bound. -/
inductive Listing : Keyword → (TypeSpec → Option ConstExpr → TypeSpec) → Prop
  | sequence : Listing .sequence .sequence
  | set : Listing .set .set

/-- A template of a bound alone. -/
inductive Texts : Keyword → (Option ConstExpr → TypeSpec) → Prop
  | string : Texts .string .string
  | wstring : Texts .wstring .wstring

/-- The tokens of a bound behind other arguments. -/
inductive SpellsBound : Option ConstExpr → List Token → Prop
  | none : SpellsBound none []
  | some {comma : Token} {e : ConstExpr} {ts : List Token} (separates : comma.kind = .punct .comma)
    (value : Renders 6 e ts) : SpellsBound (some e) (comma :: ts)

/-- The tokens of a bound that is the only argument. -/
inductive SpellsTextBound : Option ConstExpr → List Token → Prop
  | none : SpellsTextBound none []
  | some {less greater : Token} {e : ConstExpr} {ts : List Token} (angles : Angles less greater)
    (value : Renders 6 e ts) : SpellsTextBound (some e) (less :: (ts ++ [greater]))

/-- The tokens of a type that is not constructed in place. -/
inductive SpellsType : TypeSpec → List Token → Prop
  | primitive {k : Primitive} {ts : List Token} (words : SpellsWords ts k.words) :
    SpellsType (.primitive k) ts
  | named {name : ScopedName} {ts : List Token} (spelled : SpellsName name ts) :
    SpellsType (.named ⟨name, none⟩) ts
  | listing {word : Keyword} {make : TypeSpec → Option ConstExpr → TypeSpec} {element : TypeSpec}
    {b : Option ConstExpr} {head less greater : Token} {ts us : List Token}
    (template : Listing word make) (kind : head.kind = .keyword word) (angles : Angles less greater)
    (first : SpellsType element ts) (bound : SpellsBound b us) :
    SpellsType (make element b) (head :: less :: ((ts ++ us) ++ [greater]))
  | map {key value : TypeSpec} {b : Option ConstExpr} {head less comma greater : Token}
    {ts us vs : List Token} (kind : head.kind = .keyword .map) (angles : Angles less greater)
    (first : SpellsType key ts) (separates : comma.kind = .punct .comma)
    (second : SpellsType value us) (bound : SpellsBound b vs) :
    SpellsType (.map key value b) (head :: less :: ((ts ++ comma :: (us ++ vs)) ++ [greater]))
  | texts {word : Keyword} {make : Option ConstExpr → TypeSpec} {b : Option ConstExpr}
    {head : Token} {ts : List Token} (template : Texts word make) (kind : head.kind = .keyword word)
    (bound : SpellsTextBound b ts) : SpellsType (make b) (head :: ts)
  | anyFixed {head : Token} (kind : head.kind = .keyword .fixed) : SpellsType (.fixed none) [head]
  | fixed {digits scale : ConstExpr} {head less comma greater : Token} {ts us : List Token}
    (kind : head.kind = .keyword .fixed) (angles : Angles less greater)
    (first : Renders 6 digits ts) (separates : comma.kind = .punct .comma)
    (second : Renders 6 scale us) :
    SpellsType (.fixed (some (digits, scale)))
      (head :: less :: ((ts ++ comma :: us) ++ [greater]))

/-- What may stand behind a type: a declared name, or more of the template it is in. -/
def FollowsType (rest : List Token) : Prop :=
  ∀ t ∈ rest.head?, t.kind = .ident ∨ t.kind = .punct .comma ∨ t.kind = .punct .greater

section

variable {α : Type} {l : Level} {s : Cursor} {t : Token} {ts us rest : List Token}

theorem FollowsType.of_comma (kind : t.kind = .punct .comma) : FollowsType (t :: rest) := by
  simpa [FollowsType] using .inr (.inl kind)

theorem FollowsType.of_greater (kind : t.kind = .punct .greater) : FollowsType (t :: rest) := by
  simpa [FollowsType] using .inr (.inr kind)

theorem FollowsType.kind_ne {k : TokenKind} (follows : FollowsType rest)
    (other : k ≠ .ident ∧ k ≠ .punct .comma ∧ k ≠ .punct .greater) :
    ∀ t ∈ rest.head?, t.kind ≠ k := by
  intro t mem same
  obtain kind | kind | kind := follows t mem
  · exact other.1 (same.symm.trans kind)
  · exact other.2.1 (same.symm.trans kind)
  · exact other.2.2 (same.symm.trans kind)

/-- The reader is not in front of a token of the kind. -/
theorem FollowsType.absent {k : TokenKind} (follows : FollowsType rest) (next : s.rest = rest)
    (present : k ≠ .eof) (other : k ≠ .ident ∧ k ≠ .punct .comma ∧ k ≠ .punct .greater) :
    s.kind ≠ k :=
  Cursor.kind_ne_of_head next present (follows.kind_ne other)

/-! Expressions as template arguments. -/

/-- Readers of operators that see none behind the operand leave it alone. -/
theorem accepts_chains {levels : List OperatorLevel} {p : Parser ConstExpr} {Q : ConstExpr → Prop}
    (reads : Accepts p s ts Q) (next : s.rest = ts ++ rest)
    (none : ∀ level ∈ levels, ∀ s : Cursor, s.rest = rest → level s = none) :
    Accepts (levels.foldl (chain l) p) s ts Q := by
  induction levels generalizing p with
  | nil => exact reads
  | cons level levels ih =>
    refine ih ?_ fun level mem => none level (List.mem_cons_of_mem _ mem)
    refine reads.bindPure fun e u passed holds => ?_
    have stop := none level (List.mem_cons_self ..) u (passed.left next)
    refine (accepts_none (by simp [stop])).bindPure fun steps _ _ nothing => ?_
    rw [nothing]
    exact .pure holds

/-- Within template arguments, neither a comma nor a closing angle is an operator. -/
theorem no_operator {level : OperatorLevel} (mem : level ∈ operatorLevels true)
    (next : s.rest = t :: rest) (ends : t.kind = .punct .comma ∨ t.kind = .punct .greater) :
    level s = none := by
  have nth : s.nth 0 = t := by simp [Cursor.nth, next]
  obtain ends | ends := ends <;>
    simp only [operatorLevels, List.mem_cons, List.not_mem_nil, or_false] at mem <;>
    rcases mem with rfl | rfl | rfl | rfl | rfl | rfl <;>
    simp [eitherLevel, oneMark_of_front next ends, shiftLevel, nth, ends]

/-- An operand is read back as a template argument. -/
theorem accepts_argument {e : ConstExpr} (renders : Renders 6 e ts) (inside : l.inTemplate = true)
    (room : ts.length ≤ l.left) (next : s.rest = ts ++ t :: rest)
    (ends : t.kind = .punct .comma ∨ t.kind = .punct .greater) :
    Accepts (constExpr l) s ts fun e' => e'.unplaced = e.unplaced := by
  let fresh : Cursor := { s with operators := 0 }
  have faces : Faces 6 l fresh ts (t :: rest) :=
    ⟨fun lower => absurd lower (by decide), next, by simpa [fresh] using room⟩
  have apart : EndsAt 6 ts (t :: rest) := by
    refine .of_token fun last _ u mem => ?_
    obtain rfl : t = u := by simpa using mem
    obtain ends | ends := ends
    · exact not_continues ends (by decide)
    · exact not_continues ends (by decide)
  have operand : Accepts (operand l.limit l.left l.inTemplate) fresh ts
      fun e' => e'.unplaced = e.unplaced :=
    (begins_of_renders renders (Nat.le_refl _)).settles l fresh (t :: rest) faces apart
  obtain ⟨e', u, read, passed, same⟩ := accepts_chains (l := l) operand next
    fun level mem s next => no_operator (inside ▸ mem) next ends
  have counted : u.operators ≤ 0 + ts.length := passed.operators
  refine ⟨e', u, read, ?_, same⟩
  exact ⟨passed.rest, passed.ending, passed.braces, passed.errors, by omega⟩

/-- Arguments in angles are read by their reader, within a template. -/
theorem accepts_angled {args : Level → Parser α} {less greater : Token} {Q : α → Prop}
    (angles : Angles less greater) (next : s.rest = less :: (ts ++ greater :: rest))
    (reads : ∀ s, s.rest = ts ++ greater :: rest →
      Accepts (args { l with inTemplate := true }) s ts Q) :
    Accepts (angled l args) s (less :: (ts ++ [greater])) Q := by
  have plain {t : Token} (kind : t.kind = .punct .less ∨ t.kind = .punct .greater) :
      ¬ t.kind.IsBrace := by
    obtain kind | kind := kind <;> simp [TokenKind.IsBrace, kind]
  refine (accepts_expect next angles.opening (plain (.inl angles.opening))).discard.bind
    fun _ s passed _ => ?_
  have next := passed.left next
  refine (reads s next).bind fun a s passed holds => ?_
  have next := passed.left next
  exact (accepts_expect next angles.closing (plain (.inr angles.closing))).discard.bindPure
    fun _ _ _ _ => .pure holds

theorem accepts_bound? {b : Option ConstExpr} {greater : Token} (spelled : SpellsBound b ts)
    (inside : l.inTemplate = true) (room : ts.length ≤ l.left)
    (next : s.rest = ts ++ greater :: rest) (closing : greater.kind = .punct .greater) :
    Accepts (bound? l) s ts fun b' => b'.map ConstExpr.unplaced = b.map ConstExpr.unplaced := by
  cases spelled with
  | none =>
    have other : s.kind ≠ .punct .comma := by
      rw [Cursor.kind_of_rest next, closing]
      decide
    refine (accepts_eat_absent other).bind fun found s _ absent => ?_
    rw [absent]
    exact .pure rfl
  | @some comma e ts separates value =>
    have plain : ¬ comma.kind.IsBrace := by simp [TokenKind.IsBrace, separates]
    refine (accepts_eat next separates plain).bind fun found s passed present => ?_
    rw [present, ← List.append_nil ts]
    have room : ts.length ≤ l.left := Nat.le_of_succ_le room
    exact (accepts_argument value inside room (passed.left next) (.inr closing)).bind
      fun e' _ _ same => .pure (by rw [Option.map_some, Option.map_some, same])

theorem accepts_stringBound? {b : Option ConstExpr} (spelled : SpellsTextBound b ts)
    (room : ts.length ≤ l.left) (next : s.rest = ts ++ rest) (follows : FollowsType rest) :
    Accepts (stringBound? l) s ts fun b' =>
      b'.map ConstExpr.unplaced = b.map ConstExpr.unplaced := by
  cases spelled with
  | none =>
    have other : s.at? .less = false := by
      rw [Bool.eq_false_iff, ne_eq, Cursor.at?_iff]
      exact follows.absent next (by decide) (by decide)
    exact accepts_test other (.pure rfl)
  | @some less greater e ts angles value =>
    have front : s.at? .less = true :=
      Cursor.at?_iff.mpr ((Cursor.kind_of_rest next).trans angles.opening)
    have room : ts.length ≤ l.left := by
      simp only [List.length_cons, List.length_append] at room
      omega
    have next : s.rest = less :: (ts ++ greater :: rest) := by simpa using next
    have reads := accepts_angled angles next fun s next =>
      accepts_argument (l := { l with inTemplate := true }) value rfl room next
        (.inr angles.closing)
    exact accepts_test front (reads.bindPure fun e' _ _ same => .pure
      (by rw [Option.map_some, Option.map_some, same]))

/-! Base types. -/

/-- What is read of a base type behind `long`. -/
def longTail : Parser (Option Primitive) := do
  if ← eatKeyword .long then return some .longLong
  return some (if ← eatKeyword .double then .longDouble else .long)

/-- What is read of a base type behind `unsigned`. -/
def unsignedTail : Parser (Option Primitive) := do
  if ← eatKeyword .short then return some .ushort
  if ← eatKeyword .long then
    return some (if ← eatKeyword .long then .ulongLong else .ulong)
  expected "`short` or `long` after `unsigned`"

theorem primitive?_of_long (kind : s.kind = .keyword .long) :
    primitive? s = (do discard bump; longTail) s := by
  rw [primitive?, bind_apply]
  simp only [Grammar.kind, kind]
  rfl

theorem primitive?_of_unsigned (kind : s.kind = .keyword .unsigned) :
    primitive? s = (do discard bump; unsignedTail) s := by
  rw [primitive?, bind_apply]
  simp only [Grammar.kind, kind]
  rfl

theorem primitive?_of_word {word : Keyword} {k : Primitive} (kind : s.kind = .keyword word)
    (known : wordType? word = some k) :
    primitive? s = (do discard bump; return some k : Parser (Option Primitive)) s := by
  have other : word ≠ .unsigned ∧ word ≠ .long := by
    constructor <;> (rintro rfl; cases known)
  rw [primitive?, bind_apply]
  simp only [Grammar.kind, kind]
  cases word <;> simp_all

/-- The word of no base type. -/
structure NoBase (word : Keyword) : Prop where
  known : wordType? word = none
  long : word ≠ .long
  unsigned : word ≠ .unsigned

/-- A base type that begins with `long` is read by what follows the word. -/
theorem accepts_long {k : Primitive} (next : s.rest = t :: (ts ++ rest))
    (kind : t.kind = .keyword .long)
    (more : ∀ s, s.rest = ts ++ rest → Accepts longTail s ts (· = some k)) :
    Accepts primitive? s (t :: ts) (· = some k) := by
  have plain : ¬ t.kind.IsBrace := by simp [TokenKind.IsBrace, kind]
  refine Accepts.congr ?_ (primitive?_of_long ((Cursor.kind_of_rest next).trans kind))
  exact accepts_past rfl next plain (more s.bump ((passed_bump next plain).left next))

/-- So is one that begins with `unsigned`. -/
theorem accepts_unsigned {k : Primitive} (next : s.rest = t :: (ts ++ rest))
    (kind : t.kind = .keyword .unsigned)
    (more : ∀ s, s.rest = ts ++ rest → Accepts unsignedTail s ts (· = some k)) :
    Accepts primitive? s (t :: ts) (· = some k) := by
  have plain : ¬ t.kind.IsBrace := by simp [TokenKind.IsBrace, kind]
  refine Accepts.congr ?_ (primitive?_of_unsigned ((Cursor.kind_of_rest next).trans kind))
  exact accepts_past rfl next plain (more s.bump ((passed_bump next plain).left next))

/-- A base type is read from its words. -/
theorem accepts_primitive {k : Primitive} (words : SpellsWords ts k.words)
    (next : s.rest = ts ++ rest) (ends : ∀ word, ∀ t ∈ rest.head?, t.kind ≠ .keyword word) :
    Accepts primitive? s ts (· = some k) := by
  -- no word follows the last one, and a word is no other one
  have ended {word : Keyword} {s : Cursor} (next : s.rest = rest) : s.kind ≠ .keyword word :=
    Cursor.kind_ne_of_head next (by simp) (ends word)
  have apart {word word' : Keyword} {s : Cursor} {t : Token} {us : List Token}
      (next : s.rest = t :: us) (kind : t.kind = .keyword word') (other : word' ≠ word) :
      s.kind ≠ .keyword word := by
    rw [Cursor.kind_of_rest next, kind]
    simpa using other
  -- a base type of one word
  have single {word : Keyword} (known : wordType? word = some k) (words : SpellsWords ts [word]) :
      Accepts primitive? s ts (· = some k) := by
    obtain ⟨t, _, kind, none, rfl⟩ := List.forall₂_cons_right_iff.mp words
    cases none
    refine Accepts.congr ?_ (primitive?_of_word ((Cursor.kind_of_rest next).trans kind) known)
    exact accepts_past rfl next (by simp [TokenKind.IsBrace, kind]) (.pure rfl)
  cases k with
  | long =>
    obtain ⟨t, _, kind, none, rfl⟩ := List.forall₂_cons_right_iff.mp words
    cases none
    refine accepts_long next kind fun s next => ?_
    exact accepts_withoutKeyword (ended next) (accepts_withoutKeyword (ended next) (.pure rfl))
  | longLong =>
    obtain ⟨t, _, kind, more, rfl⟩ := List.forall₂_cons_right_iff.mp words
    obtain ⟨u, _, kind', none, rfl⟩ := List.forall₂_cons_right_iff.mp more
    cases none
    exact accepts_long next kind fun s next => accepts_afterKeyword next kind' (.pure rfl)
  | longDouble =>
    obtain ⟨t, _, kind, more, rfl⟩ := List.forall₂_cons_right_iff.mp words
    obtain ⟨u, _, kind', none, rfl⟩ := List.forall₂_cons_right_iff.mp more
    cases none
    refine accepts_long next kind fun s next => ?_
    exact accepts_withoutKeyword (apart next kind' (by decide))
      (accepts_afterKeyword next kind' (.pure rfl))
  | ushort =>
    obtain ⟨t, _, kind, more, rfl⟩ := List.forall₂_cons_right_iff.mp words
    obtain ⟨u, _, kind', none, rfl⟩ := List.forall₂_cons_right_iff.mp more
    cases none
    exact accepts_unsigned next kind fun s next => accepts_afterKeyword next kind' (.pure rfl)
  | ulong =>
    obtain ⟨t, _, kind, more, rfl⟩ := List.forall₂_cons_right_iff.mp words
    obtain ⟨u, _, kind', none, rfl⟩ := List.forall₂_cons_right_iff.mp more
    cases none
    refine accepts_unsigned next kind fun s next => ?_
    have left := (passed_bump next (by simp [TokenKind.IsBrace, kind'])).left next
    exact accepts_withoutKeyword (apart next kind' (by decide))
      (accepts_afterKeyword next kind' (accepts_withoutKeyword (ended left) (.pure rfl)))
  | ulongLong =>
    obtain ⟨t, _, kind, more, rfl⟩ := List.forall₂_cons_right_iff.mp words
    obtain ⟨u, _, kind', last, rfl⟩ := List.forall₂_cons_right_iff.mp more
    obtain ⟨v, _, kind'', none, rfl⟩ := List.forall₂_cons_right_iff.mp last
    cases none
    refine accepts_unsigned next kind fun s next => ?_
    have left := (passed_bump next (by simp [TokenKind.IsBrace, kind'])).left next
    exact accepts_withoutKeyword (apart next kind' (by decide))
      (accepts_afterKeyword next kind' (accepts_afterKeyword left kind'' (.pure rfl)))
  | _ => exact single rfl words

/-! Types. -/

theorem primitive?_of_noBase {word : Keyword} (kind : s.kind = .keyword word)
    (other : NoBase word) : primitive? s = .ok none s := by
  obtain ⟨known, long, unsigned⟩ := other
  rw [primitive?, bind_apply]
  simp only [Grammar.kind, kind]
  cases word <;> simp_all <;> rfl

/-- A type that begins with the word of no base type goes by this word. -/
theorem typeWith_of_keyword {word : Keyword} {type : Bool → Parser TypeSpec}
    (kind : s.kind = .keyword word) (other : NoBase word) :
    typeWith l type s = keywordType l type word s := by
  rw [typeWith, bind_apply, primitive?_of_noBase kind other]
  simp only [bind, EStateM.bind, Grammar.kind, kind]

theorem typeWith_of_name {type : Bool → Parser TypeSpec}
    (kind : s.kind = .ident ∨ s.kind = .punct .colonColon) :
    typeWith l type s = (do return TypeSpec.named ⟨← scopedName, none⟩) s := by
  have none : primitive? s = .ok none s := by
    rw [primitive?, bind_apply]
    obtain kind | kind := kind <;> simp only [Grammar.kind, kind] <;> rfl
  rw [typeWith, bind_apply, none]
  obtain kind | kind := kind <;> simp only [bind, EStateM.bind, Grammar.kind, kind]

theorem Listing.noBase {word : Keyword} {make : TypeSpec → Option ConstExpr → TypeSpec}
    (template : Listing word make) : NoBase word := by
  cases template <;> exact ⟨rfl, by decide, by decide⟩

theorem Texts.noBase {word : Keyword} {make : Option ConstExpr → TypeSpec}
    (template : Texts word make) : NoBase word := by
  cases template <;> exact ⟨rfl, by decide, by decide⟩

theorem SpellsType.nonempty {t : TypeSpec} (spelled : SpellsType t ts) : ts ≠ [] := by
  cases spelled with
  | @primitive k _ words =>
    rintro rfl
    cases k <;> cases words
  | named spelled => exact spelled.nonempty
  | _ => simp

/-- Where tokens have room, there is a level. -/
theorem left_eq {left : Nat} (room : ts.length ≤ left) (some : ts ≠ []) : ∃ n, left = n + 1 :=
  Nat.exists_eq_add_one.mpr (Nat.lt_of_lt_of_le (List.length_pos_of_ne_nil some) room)

/-- A bound and the closing angle go on with a template. -/
theorem SpellsBound.follows {b : Option ConstExpr} {greater : Token} (spelled : SpellsBound b ts)
    (closing : greater.kind = .punct .greater) : FollowsType (ts ++ greater :: rest) := by
  cases spelled with
  | none => exact .of_greater closing
  | some separates _ => exact .of_comma separates

/-- Behind the word of no base type, the rest of the type is read. -/
theorem accepts_behind {type : Bool → Parser TypeSpec} {word : Keyword} {more : Parser TypeSpec}
    {Q : TypeSpec → Prop} (kind : t.kind = .keyword word) (other : NoBase word)
    (reader : keywordType l type word = (do discard bump; more)) (next : s.rest = t :: rest)
    (reads : Accepts more s.bump ts Q) : Accepts (typeWith l type) s (t :: ts) Q := by
  refine Accepts.congr ?_ (typeWith_of_keyword ((Cursor.kind_of_rest next).trans kind) other)
  rw [reader]
  exact accepts_past rfl next (by simp [TokenKind.IsBrace, kind]) reads

/-- Behind the word of a template, its arguments are read in angles. -/
theorem accepts_template {type : Bool → Parser TypeSpec} {word : Keyword}
    {args : Level → Parser TypeSpec} {head less greater : Token} {Q : TypeSpec → Prop}
    (kind : head.kind = .keyword word) (other : NoBase word) (angles : Angles less greater)
    (reader : keywordType l type word = (do discard bump; angled l args))
    (next : s.rest = head :: less :: (ts ++ [greater]) ++ rest)
    (reads : ∀ s, s.rest = ts ++ greater :: rest →
      Accepts (args { l with inTemplate := true }) s ts Q) :
    Accepts (typeWith l type) s (head :: less :: (ts ++ [greater])) Q := by
  have plain : ¬ head.kind.IsBrace := by simp [TokenKind.IsBrace, kind]
  have behind : s.bump.rest = less :: (ts ++ greater :: rest) := by
    simpa using (passed_bump next plain).left next
  exact accepts_behind kind other reader next (accepts_angled angles behind reads)

/-- A type is read back from its tokens. The limit has to leave room for as many levels as there are
tokens. -/
theorem accepts_typeSpecAt {t : TypeSpec} {limit left : Nat} {inTemplate : Bool}
    (spelled : SpellsType t ts) (room : ts.length ≤ left) (next : s.rest = ts ++ rest)
    (follows : FollowsType rest) :
    Accepts (typeSpecAt limit left inTemplate) s ts fun t' => t'.unplaced = t.unplaced := by
  -- a comma between arguments
  have between {s : Cursor} {comma : Token} {us : List Token} (next : s.rest = comma :: us)
      (kind : comma.kind = .punct .comma) :
      Accepts (discard (expect .comma)) s [comma] fun _ => True :=
    (accepts_expect next kind (by simp [TokenKind.IsBrace, kind])).discard
  obtain ⟨left, rfl⟩ := left_eq room spelled.nonempty
  induction spelled generalizing left inTemplate s rest with
  | @primitive k ts words =>
    have ends (word : Keyword) := follows.kind_ne (k := .keyword word) (by simp)
    refine (accepts_primitive words next ends).bindPure fun o _ _ same => ?_
    rw [same]
    exact .pure rfl
  | @named name ts spelled =>
    refine Accepts.congr ?_ (typeWith_of_name (spelled.front next))
    exact (accepts_scopedName spelled next (follows.kind_ne (by decide))).bindPure
      fun name' _ _ same => .pure (by rw [TypeSpec.unplaced, TypeSpec.unplaced, same])
  | @listing word make element b head less greater ts us template kind angles first bound ih =>
    have room : ts.length ≤ left ∧ us.length ≤ left := by
      simp only [List.length_cons, List.length_append] at room
      omega
    have reader : keywordType ⟨limit, left, inTemplate⟩ (typeSpecAt limit left) word = (do
        discard bump
        angled ⟨limit, left, inTemplate⟩ fun inner => do
          let element ← typeSpecAt limit left true
          return make element (← bound? inner)) := by
      cases template <;> rfl
    refine accepts_template kind template.noBase angles reader next fun s next => ?_
    rw [List.append_assoc] at next
    obtain ⟨left, rfl⟩ := left_eq room.1 first.nonempty
    refine (ih next (bound.follows angles.closing) _ room.1).bind fun element' s passed same => ?_
    refine (accepts_bound? bound rfl room.2 (passed.left next) angles.closing).bindPure
      fun b' _ _ same' => .pure ?_
    cases template <;> rw [TypeSpec.unplaced, TypeSpec.unplaced, same, same']
  | @map key value b head less comma greater ts us vs kind angles first separates second bound ih
      ih' =>
    have room : ts.length ≤ left ∧ us.length ≤ left ∧ vs.length ≤ left := by
      simp only [List.length_cons, List.length_append] at room
      omega
    refine accepts_template kind ⟨rfl, by decide, by decide⟩ angles rfl next fun s next => ?_
    rw [List.append_assoc, List.cons_append, List.append_assoc] at next
    obtain ⟨left, rfl⟩ := left_eq room.1 first.nonempty
    refine (ih next (.of_comma separates) _ room.1).bind fun key' s passed same => ?_
    have next := passed.left next
    refine (between next separates).bind fun _ s passed _ => ?_
    have next := passed.left next
    refine (ih' next (bound.follows angles.closing) _ room.2.1).bind fun value' s passed same' => ?_
    refine (accepts_bound? bound rfl room.2.2 (passed.left next) angles.closing).bindPure
      fun b' _ _ same'' => .pure ?_
    rw [TypeSpec.unplaced, TypeSpec.unplaced, same, same', same'']
  | @texts word make b head ts template kind bound =>
    have reader : keywordType ⟨limit, left, inTemplate⟩ (typeSpecAt limit left) word = (do
        discard bump
        return make (← stringBound? ⟨limit, left, inTemplate⟩)) := by
      cases template <;> rfl
    have behind := (passed_bump next (by simp [TokenKind.IsBrace, kind])).left next
    refine accepts_behind kind template.noBase reader next ?_
    refine (accepts_stringBound? bound (Nat.le_of_succ_le_succ room) behind follows).bindPure
      fun b' _ _ same => .pure ?_
    cases template <;> rw [TypeSpec.unplaced, TypeSpec.unplaced, same]
  | @anyFixed head kind =>
    have behind := (passed_bump next (by simp [TokenKind.IsBrace, kind])).left next
    have other : s.bump.at? .less = false := by
      rw [Bool.eq_false_iff, ne_eq, Cursor.at?_iff]
      exact follows.absent behind (by decide) (by decide)
    exact accepts_behind kind ⟨rfl, by decide, by decide⟩ rfl next (accepts_test other (.pure rfl))
  | @fixed digits scale head less comma greater ts us kind angles first separates second =>
    have room : ts.length ≤ left ∧ us.length ≤ left := by
      simp only [List.length_cons, List.length_append] at room
      omega
    have behind : s.bump.rest = less :: (ts ++ comma :: us ++ greater :: rest) := by
      simpa using (passed_bump next (by simp [TokenKind.IsBrace, kind])).left next
    have front : s.bump.at? .less = true :=
      Cursor.at?_iff.mpr ((Cursor.kind_of_rest behind).trans angles.opening)
    refine accepts_behind kind ⟨rfl, by decide, by decide⟩ rfl next ?_
    refine accepts_test front ?_
    rw [if_pos rfl]
    refine accepts_angled angles behind fun s next => ?_
    rw [List.append_assoc, List.cons_append] at next
    refine (accepts_argument first rfl room.1 next (.inl separates)).bind
      fun digits' s passed same => ?_
    have next := passed.left next
    refine (between next separates).bind fun _ s passed _ => ?_
    refine (accepts_argument second rfl room.2 (passed.left next) (.inr angles.closing)).bindPure
      fun scale' _ _ same' => .pure ?_
    rw [TypeSpec.unplaced, TypeSpec.unplaced, Option.map_some, Option.map_some, same, same']

theorem accepts_typeSpec {t : TypeSpec} (spelled : SpellsType t ts) (room : ts.length ≤ l.left)
    (next : s.rest = ts ++ rest) (follows : FollowsType rest) :
    Accepts (typeSpec l) s ts fun t' => t'.unplaced = t.unplaced :=
  accepts_typeSpecAt spelled room next follows

end

end Grammar

end Idl
