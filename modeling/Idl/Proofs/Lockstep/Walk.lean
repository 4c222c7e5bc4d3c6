import Idl.Proofs.Grammar.Reads

/-!
Braces along a run of tokens, as readers count them, and the statements that semicolons outside of
braces end. Main statement: `Walk.split`.
-/

set_option autoImplicit false

namespace Idl.Grammar

/-- Braces open after a token. -/
def depthAfter (depth : Nat) (t : Token) : Nat :=
  if t.kind = .punct .leftBrace then depth + 1
  else if t.kind = .punct .rightBrace then depth - 1
  else depth

/-- The tokens lead from one depth of braces to another. No brace is closed that is not open, and
no semicolon stands outside of braces. -/
inductive Walk : Nat → List Token → Nat → Prop
  | nil (depth : Nat) : Walk depth [] depth
  | cons {depth last : Nat} {t : Token} {ts : List Token}
      (inner : t.kind = .punct .semi ∨ t.kind = .punct .rightBrace → 0 < depth)
      (rest : Walk (depthAfter depth t) ts last) : Walk depth (t :: ts) last

namespace Walk

variable {a b c : Nat} {t : Token} {ts us : List Token}

theorem append (first : Walk a ts b) (second : Walk b us c) : Walk a (ts ++ us) c := by
  induction first with
  | nil => exact second
  | cons inner _ ih => exact .cons inner (ih second)

theorem single (inner : t.kind = .punct .semi ∨ t.kind = .punct .rightBrace → 0 < a) :
    Walk a [t] (depthAfter a t) := .cons inner (.nil _)

/-- A walk that sets out with the tokens of a statement ends before the semicolon of it does. -/
theorem split {before used rest : List Token} {semi : Token} {behind : List Token}
    (ends : semi.kind = .punct .semi) (walk : Walk a used b) (statement : Walk a before 0)
    (front : before ++ semi :: behind = used ++ rest) :
    ∃ left, before = used ++ left ∧ rest = left ++ semi :: behind ∧ Walk b left 0 := by
  induction walk generalizing before with
  | nil => exact ⟨before, rfl, front.symm, statement⟩
  | @cons depth last u us inner _ ih =>
    cases statement with
    | nil =>
      obtain ⟨rfl, -⟩ := List.cons.inj front
      exact absurd (inner (.inl ends)) (Nat.lt_irrefl 0)
    | cons inner' statement =>
      injection front with same front
      subst same
      obtain ⟨left, eq, rest, walk⟩ := ih statement front
      exact ⟨left, by rw [eq, List.cons_append], rest, walk⟩

end Walk

/-- The kinds of tokens that neither count as braces nor end statements. -/
structure Plain (k : TokenKind) : Prop where
  present : k ≠ .eof
  semi : k ≠ .punct .semi
  leftBrace : k ≠ .punct .leftBrace
  rightBrace : k ≠ .punct .rightBrace

instance (k : TokenKind) : Decidable (Plain k) :=
  decidable_of_iff (k ≠ .eof ∧ k ≠ .punct .semi ∧ k ≠ .punct .leftBrace ∧ k ≠ .punct .rightBrace)
    ⟨fun ⟨present, semi, left, right⟩ => ⟨present, semi, left, right⟩,
      fun plain => ⟨plain.present, plain.semi, plain.leftBrace, plain.rightBrace⟩⟩

theorem Plain.keyword (word : Keyword) : Plain (.keyword word) := ⟨nofun, nofun, nofun, nofun⟩

theorem Plain.literal (kind : LiteralKind) : Plain (.literal kind) := ⟨nofun, nofun, nofun, nofun⟩

theorem Plain.depthAfter {t : Token} (plain : Plain t.kind) (depth : Nat) :
    depthAfter depth t = depth := by
  rw [Grammar.depthAfter, if_neg plain.leftBrace, if_neg plain.rightBrace]

theorem Plain.inner {t : Token} (plain : Plain t.kind) {depth : Nat}
    (either : t.kind = .punct .semi ∨ t.kind = .punct .rightBrace) : 0 < depth :=
  either.elim (fun eq => absurd eq plain.semi) fun eq => absurd eq plain.rightBrace

namespace Cursor

variable {s : Cursor}

theorem nth_eq {t : Token} {n : Nat} (at' : s.rest[n]? = some t) : s.nth n = t := by
  rw [nth, at', Option.getD_some]

theorem peek_of_rest {t : Token} {ts : List Token} (rest : s.rest = t :: ts) : s.peek = t :=
  nth_eq (by rw [rest]; rfl)

theorem kind_of_rest {t : Token} {ts : List Token} (rest : s.rest = t :: ts) : s.kind = t.kind :=
  congrArg Token.kind (peek_of_rest rest)

theorem present_of_rest {t : Token} {ts : List Token} (rest : s.rest = t :: ts) : s.rest ≠ [] := by
  rw [rest]
  exact List.cons_ne_nil t ts

theorem present_of_kind (some : s.kind ≠ .eof) : s.rest ≠ [] :=
  present_of_rest (rest_of_kind some)

theorem bump_of_rest {t : Token} {ts : List Token} (rest : s.rest = t :: ts) :
    s.bump = { s with rest := ts, previous := t.span, braces := depthAfter s.braces t } := by
  rw [bump]
  split
  · next nil => rw [rest] at nil; cases nil
  · next eq =>
    rw [rest] at eq
    obtain ⟨rfl, rfl⟩ := List.cons.inj eq
    rfl

end Cursor

end Idl.Grammar
