import Idl.Proofs.Grammar.Rendering
import Mathlib.Tactic.IntervalCases

/-!
The levels of binary operators. Each level reads operands of the next one and goes on as long as
its operators follow; what it returns is the tree that was rendered. Main statements:
`begins_of_renders` and `accepts_constExpr`.
-/

set_option autoImplicit false

namespace Idl.Grammar

/-! Operators in front of the reader. -/

/-- The level of the operators of a strength, outside template arguments. -/
def levelAt : Nat → OperatorLevel
  | 0 => oneMark .pipe .or
  | 1 => oneMark .caret .xor
  | 2 => oneMark .ampersand .and
  | 3 => shiftLevel false
  | 4 => eitherLevel (oneMark .plus .add) (oneMark .minus .sub)
  | 5 => eitherLevel (oneMark .star .mul) (eitherLevel (oneMark .slash .div) (oneMark .percent .mod))
  | _ => fun _ => none

section

variable {s : Cursor} {rest marks : List Token} {op : BinaryOp}

theorem SpellsOp.front (spelled : SpellsOp op marks) :
    ∃ t more, marks = t :: more ∧ t.kind = .punct op.mark := by
  cases spelled with
  | @one t _ kind => exact ⟨t, [], rfl, kind⟩
  | @two t u _ first _ _ => exact ⟨t, [u], rfl, first⟩

/-- An operator is known from its first token. -/
theorem SpellsOp.unique {op' : BinaryOp} {marks' more more' : List Token}
    (spelled : SpellsOp op marks) (spelled' : SpellsOp op' marks')
    (same : marks ++ more = marks' ++ more') : op = op' := by
  obtain ⟨t, _, rfl, kind⟩ := spelled.front
  obtain ⟨t', _, rfl, kind'⟩ := spelled'.front
  obtain rfl : t = t' := (List.cons.inj same).1
  rw [kind] at kind'
  exact BinaryOp.mark_injective (TokenKind.punct.inj kind')

theorem oneMark_of_front {t : Token} {mark : Punct} (next : s.rest = t :: rest)
    (kind : t.kind = .punct mark) (mark' : Punct) (op : BinaryOp) :
    oneMark mark' op s = if mark = mark' then some (op, 1) else none := by
  have at_iff : s.at? mark' = true ↔ mark = mark' := by
    rw [Cursor.at?_iff, Cursor.kind_of_rest next, kind, TokenKind.punct.injEq]
  simp only [oneMark, at_iff]

/-- The level of an operator sees it. -/
theorem levelAt_of_spelled (spelled : SpellsOp op marks) (next : s.rest = marks ++ rest) :
    levelAt op.strength s = some (op, marks.length) := by
  cases spelled with
  | one single kind =>
    cases op <;>
      simp_all [BinaryOp.strength, BinaryOp.mark, levelAt, eitherLevel, oneMark_of_front next kind]
  | @two t u shift first second adjacent =>
    have nth0 : s.nth 0 = t := by simp [Cursor.nth, next]
    have nth1 : s.nth 1 = u := by simp [Cursor.nth, next]
    obtain rfl | rfl := shift <;>
      simp_all [BinaryOp.strength, BinaryOp.mark, levelAt, shiftLevel]

theorem spelled_of_oneMark {mark : Punct} {op' : BinaryOp} {k : Nat}
    (found : oneMark mark op' s = some (op, k)) (same : op'.mark = mark)
    (single : op' ≠ .shl ∧ op' ≠ .shr) :
    op = op' ∧ ∃ marks more, SpellsOp op marks ∧ s.rest = marks ++ more := by
  rw [oneMark] at found
  split at found
  case isTrue front =>
    obtain ⟨rfl, -⟩ : op' = op ∧ 1 = k := by simpa using found
    rw [Cursor.at?_iff] at front
    cases next : s.rest with
    | nil => exact absurd next (Cursor.present_of_kind (by simp [front]))
    | cons t more =>
      rw [Cursor.kind_of_rest next] at front
      exact ⟨rfl, [t], more, .one single (by rw [front, same]), rfl⟩
  case isFalse => cases found

theorem spelled_of_shiftLevel {k : Nat} (found : shiftLevel false s = some (op, k)) :
    (op = .shl ∨ op = .shr) ∧ ∃ marks more, SpellsOp op marks ∧ s.rest = marks ++ more := by
  -- two angles stand in front
  have angles {mark : Punct} (adjacent : (s.nth 0).span.adjacent (s.nth 1).span = true)
      (first : (s.nth 0).kind = .punct mark) (second : (s.nth 1).kind = .punct mark)
      (shift : op = .shl ∨ op = .shr) (same : op.mark = mark) :
      ∃ marks more, SpellsOp op marks ∧ s.rest = marks ++ more := by
    match next : s.rest with
    | [] => simp [Cursor.nth, next] at first
    | [t] => simp [Cursor.nth, next] at second
    | t :: u :: more =>
      have nth0 : s.nth 0 = t := by simp [Cursor.nth, next]
      have nth1 : s.nth 1 = u := by simp [Cursor.nth, next]
      rw [nth0, nth1] at adjacent
      rw [nth0, ← same] at first
      rw [nth1, ← same] at second
      exact ⟨[t, u], more, .two shift first second adjacent, rfl⟩
  simp only [shiftLevel, Bool.not_false, and_true] at found
  split at found
  case isTrue => cases found
  case isFalse adjacent =>
    rw [Bool.not_eq_true, Bool.not_eq_false'] at adjacent
    split at found
    case isTrue front =>
      obtain ⟨rfl, -⟩ : .shl = op ∧ 2 = k := by simpa using found
      exact ⟨.inl rfl, angles adjacent front.1 front.2 (.inl rfl) rfl⟩
    case isFalse =>
      split at found
      case isTrue front =>
        obtain ⟨rfl, -⟩ : .shr = op ∧ 2 = k := by simpa using found
        exact ⟨.inr rfl, angles adjacent front.1 front.2 (.inr rfl) rfl⟩
      case isFalse => cases found

theorem of_eitherLevel {a b : OperatorLevel} {r : BinaryOp × Nat}
    (found : eitherLevel a b s = some r) : a s = some r ∨ b s = some r := by
  rw [eitherLevel, Option.orElse_eq_orElse, Option.orElse_eq_or, Option.or_eq_some_iff] at found
  exact found.imp_right And.right

/-- What a level sees is an operator of its strength. -/
theorem spelled_of_levelAt {n k : Nat} (found : levelAt n s = some (op, k)) :
    op.strength = n ∧ ∃ marks more, SpellsOp op marks ∧ s.rest = marks ++ more := by
  -- a level of one mark
  have single {mark : Punct} {op' : BinaryOp} (found : oneMark mark op' s = some (op, k))
      (same : op'.mark = mark) (single : op' ≠ .shl ∧ op' ≠ .shr) (strength : op'.strength = n) :
      op.strength = n ∧ ∃ marks more, SpellsOp op marks ∧ s.rest = marks ++ more := by
    obtain ⟨rfl, spelled⟩ := spelled_of_oneMark found same single
    exact ⟨strength, spelled⟩
  match n with
  | 0 => exact single found rfl (by decide) rfl
  | 1 => exact single found rfl (by decide) rfl
  | 2 => exact single found rfl (by decide) rfl
  | 3 =>
    obtain ⟨rfl | rfl, spelled⟩ := spelled_of_shiftLevel found
    · exact ⟨rfl, spelled⟩
    · exact ⟨rfl, spelled⟩
  | 4 =>
    obtain found | found := of_eitherLevel found
    · exact single found rfl (by decide) rfl
    · exact single found rfl (by decide) rfl
  | 5 =>
    obtain found | found := of_eitherLevel found
    · exact single found rfl (by decide) rfl
    · obtain found | found := of_eitherLevel found
      · exact single found rfl (by decide) rfl
      · exact single found rfl (by decide) rfl
  | n + 6 => cases found

end

/-! Readers of the levels. -/

section

variable {l : Level} {s : Cursor} {n : Nat} {e : ConstExpr} {ts rest marks : List Token}
  {op : BinaryOp}

/-- The reader of operands with operators between them that are at least as strong as `n`. -/
def levelExpr (l : Level) (n : Nat) : Parser ConstExpr :=
  ((operatorLevels l.inTemplate).take (6 - n)).foldl (chain l)
    (operand l.limit l.left l.inTemplate)

/-- How the reader goes on behind the operands that make `e`. -/
def goOn (l : Level) (n : Nat) (e : ConstExpr) : Parser ConstExpr := do
  let steps ← many (fun s => (levelAt n s).isNone)
    (operatorStep l (levelAt n) (levelExpr l (n + 1)))
  return steps.foldl joined e

theorem levelExpr_of_lower (outside : l.inTemplate = false) (lower : n < 6) :
    levelExpr l n = levelExpr l (n + 1) >>= goOn l n := by
  obtain ⟨limit, left, inTemplate⟩ := l
  obtain rfl : inTemplate = false := outside
  interval_cases n <;> rfl

theorem goOn_eq : goOn l n e s =
    match many (fun s => (levelAt n s).isNone)
      (operatorStep l (levelAt n) (levelExpr l (n + 1))) s with
    | .ok steps t => .ok (steps.foldl joined e) t
    | .error fault t => .error fault t := by
  rw [goOn]
  simp only [bind, EStateM.bind]
  cases many (fun s => (levelAt n s).isNone)
    (operatorStep l (levelAt n) (levelExpr l (n + 1))) s with
  | ok steps t => rfl
  | error fault t => rfl

/-- No operator of the level follows. -/
theorem goOn_stop (last : levelAt n s = none) : goOn l n e s = .ok e s := by
  rw [goOn_eq, many_eq, if_pos (by simp [last])]
  rfl

/-- An operator and its operand are taken in. -/
theorem goOn_step {Q : BinaryOp × ConstExpr → Prop} (going : levelAt n s ≠ none)
    (some : ts ≠ [])
    (reads : Accepts (operatorStep l (levelAt n) (levelExpr l (n + 1))) s ts Q) :
    ∃ step s', Passed s s' ts ∧ Q step ∧ goOn l n e s = goOn l n (joined e step) s' := by
  obtain ⟨step, s', read, passed, holds⟩ := reads
  refine ⟨step, s', passed, holds, ?_⟩
  have shorter : s'.rest.length < s.rest.length := passed.shorter some
  have going : ¬ ((levelAt n s).isNone = true) := by simpa using going
  rw [goOn_eq, goOn_eq, many_eq, if_neg going, read]
  simp only [if_pos shorter]
  cases many (fun s => (levelAt n s).isNone)
    (operatorStep l (levelAt n) (levelExpr l (n + 1))) s' with
  | ok steps t => rfl
  | error e t => rfl

theorem Cursor.operators_bump (s : Cursor) : s.bump.operators = s.operators := by
  unfold bump
  split <;> rfl

/-- An operator is taken if the limit leaves room for one more. -/
theorem accepts_operator (spelled : SpellsOp op marks) (next : s.rest = marks ++ rest)
    (room : s.operators < l.left) :
    Accepts (operator l op marks.length) s marks (· = op) := by
  have room : ¬ l.left < s.operators + 1 := by omega
  have plain {t : Token} (kind : t.kind = .punct op.mark) : ¬ t.kind.IsBrace := by
    rw [kind]
    cases op <;> simp [TokenKind.IsBrace, BinaryOp.mark]
  cases spelled with
  | @one t _ kind =>
    have passed := passed_bump next (plain kind)
    refine ⟨op, { s.bump with operators := s.operators + 1 }, ?_, ?_, rfl⟩
    · simp [operator, Cursor.operators_bump, room]
    · exact ⟨passed.rest, passed.ending, passed.braces, passed.errors, Nat.le_refl _⟩
  | @two t u _ first second _ =>
    have one := passed_bump next (plain first)
    have passed := one.trans (passed_bump (one.left next) (plain second))
    refine ⟨op, { s.bump.bump with operators := s.operators + 1 }, ?_, ?_, rfl⟩
    · simp [operator, Cursor.operators_bump, room]
    · exact ⟨passed.rest, passed.ending, passed.braces, passed.errors, by simp⟩

/-- An operator and the operand behind it are read if the operand is. -/
theorem accepts_operatorStep {right : ConstExpr} {us : List Token}
    (spelled : SpellsOp op marks) (next : s.rest = marks ++ rest) (room : s.operators < l.left)
    (reads : ∀ t, Passed s t marks →
      Accepts (levelExpr l (op.strength + 1)) t us fun e => e.unplaced = right.unplaced) :
    Accepts (operatorStep l (levelAt op.strength) (levelExpr l (op.strength + 1))) s (marks ++ us)
      fun step => step.1 = op ∧ step.2.unplaced = right.unplaced := by
  have both : Accepts (do
      let op' ← operator l op marks.length
      return (op', ← levelExpr l (op.strength + 1))) s (marks ++ us)
      fun step => step.1 = op ∧ step.2.unplaced = right.unplaced := by
    refine (accepts_operator spelled next room).bind fun op' t passed same => ?_
    rw [same]
    exact (reads t passed).bindPure fun e u _ same => .pure ⟨rfl, same⟩
  refine both.congr ?_
  simp only [operatorStep, levelAt_of_spelled spelled next]

end

/-! What the readers make of the tokens of an expression. -/

/-- At `s`, the tokens of an expression come next, and the limit leaves room for them. Within
template arguments, only operands are looked at. -/
structure Faces (n : Nat) (l : Level) (s : Cursor) (ts rest : List Token) : Prop where
  outside : n < 6 → l.inTemplate = false
  next : s.rest = ts ++ rest
  room : s.operators + ts.length ≤ l.left

/-- The reader of the level takes the expression in and then goes on with operators of the level. -/
def Begins (n : Nat) (e : ConstExpr) (ts : List Token) : Prop :=
  ∀ (l : Level) (s : Cursor) (rest : List Token), Faces n l s ts rest → EndsAt (n + 1) ts rest →
    ∃ e' s', Passed s s' ts ∧ e'.unplaced = e.unplaced ∧ levelExpr l n s = goOn l n e' s'

/-- The reader of the level takes the expression in and is done. -/
def Settles (n : Nat) (e : ConstExpr) (ts : List Token) : Prop :=
  ∀ (l : Level) (s : Cursor) (rest : List Token), Faces n l s ts rest → EndsAt n ts rest →
    Accepts (levelExpr l n) s ts fun e' => e'.unplaced = e.unplaced

section

variable {m n : Nat} {e left right : ConstExpr} {op : BinaryOp} {ts us marks : List Token}

theorem Faces.mono {l : Level} {s : Cursor} {rest : List Token} (faces : Faces m l s ts rest)
    (le : m ≤ n) : Faces n l s ts rest :=
  ⟨fun lower => faces.outside (Nat.lt_of_le_of_lt le lower), faces.next, faces.room⟩

/-- Where no operator of the level follows, the reader is done. -/
theorem Begins.settles (begins : Begins n e ts) : Settles n e ts := by
  intro l s rest faces ends
  obtain ⟨e', s', passed, same, goes⟩ := begins l s rest faces (ends.mono (Nat.le_succ n))
  have last : levelAt n s' = none := by
    rw [Option.eq_none_iff_forall_ne_some]
    rintro ⟨op, k⟩ found
    obtain ⟨rfl, marks, more, spelled, front⟩ := spelled_of_levelAt found
    have left : s'.rest = rest := passed.left faces.next
    exact ends.operator op marks more (Nat.le_refl _) spelled (left.symm.trans front)
  rw [goOn_stop last] at goes
  exact ⟨e', s', goes, passed, same⟩

/-- What the next level reads as a whole is a first operand. -/
theorem Settles.begins (settles : Settles (n + 1) e ts) (lower : n < 6) : Begins n e ts := by
  intro l s rest faces ends
  obtain ⟨e', s', read, passed, same⟩ := settles l s rest (faces.mono (Nat.le_succ n)) ends
  refine ⟨e', s', passed, same, ?_⟩
  rw [levelExpr_of_lower (faces.outside lower) lower, bind_apply, read]

/-- The same holds of every looser level. -/
theorem Begins.lower (begins : Begins m e ts) (le : n ≤ m) (top : m ≤ 6) : Begins n e ts := by
  induction le with
  | refl => exact begins
  | step _ ih => exact ih (begins.settles.begins top) (Nat.le_of_succ_le top)

/-- No operator is as strong as an operand. -/
theorem Settles.begins_top (settles : Settles 6 e ts) : Begins 6 e ts := by
  intro l s rest faces ends
  obtain ⟨e', s', read, passed, same⟩ := settles l s rest faces (.of_token ends.token)
  exact ⟨e', s', passed, same, read.trans (goOn_stop rfl).symm⟩

/-- The mark of an operator ends the operand in front of it. -/
theorem EndsAt.of_operator (spelled : SpellsOp op marks) (ts more : List Token) :
    EndsAt (op.strength + 1) ts (marks ++ more) := by
  refine ⟨fun op' marks' more' tight spelled' same => ?_, fun last _ next mem => ?_⟩
  · obtain rfl := spelled.unique spelled' same
    omega
  · obtain ⟨t, others, rfl, kind⟩ := spelled.front
    obtain rfl : t = next := by simpa using mem
    exact not_continues kind (by cases op <;> decide)

/-- An operator of the level and its right operand are taken in. -/
theorem Begins.binary {span : Span} (spelled : SpellsOp op marks) (some : us ≠ [])
    (first : Begins op.strength left ts) (second : Settles (op.strength + 1) right us) :
    Begins op.strength (.binary op left right span none) (ts ++ (marks ++ us)) := by
  intro l s rest faces ends
  have ⟨outside, next, room⟩ := faces
  have below : op.strength < 6 := op.strength_lt
  rw [List.append_assoc, List.append_assoc] at next
  rw [List.length_append, List.length_append] at room
  obtain ⟨left', t, passed, same, goes⟩ :=
    first l s _ ⟨outside, next, by omega⟩ (.of_operator spelled ts (us ++ rest))
  have next := passed.left next
  have counted := passed.operators
  have present : 0 < marks.length := by
    obtain ⟨_, _, rfl, _⟩ := spelled.front
    exact Nat.succ_pos _
  have ends : EndsAt (op.strength + 1) us rest := by
    refine ⟨ends.operator, fun last mem => ends.token last ?_⟩
    rwa [List.getLast?_append_of_ne_nil _ (by simp [some]), List.getLast?_append_of_ne_nil _ some]
  have step : Accepts (operatorStep l (levelAt op.strength) (levelExpr l (op.strength + 1))) t
      (marks ++ us) fun step => step.1 = op ∧ step.2.unplaced = right.unplaced := by
    refine accepts_operatorStep spelled next (by omega) fun u passed' => ?_
    have counted' := passed'.operators
    exact second l u rest ⟨fun _ => outside below, passed'.left next, by omega⟩ ends
  have going : levelAt op.strength t ≠ none := by
    rw [levelAt_of_spelled spelled next]
    exact Option.some_ne_none _
  obtain ⟨⟨op', right'⟩, u, passed', ⟨same_op, same'⟩, goes'⟩ :=
    goOn_step (e := left') going (by simp [some]) step
  obtain rfl : op' = op := same_op
  exact ⟨joined left' (op', right'), u, passed.trans passed',
    ConstExpr.unplaced_of_joined op' same same' span, goes.trans goes'⟩

end

/-! Operands. -/

section

variable {l : Level} {s : Cursor} {n : Nat} {e : ConstExpr} {ts rest : List Token}

theorem SpellsLiteral.nonempty {literal : Literal} (spelled : SpellsLiteral literal ts) :
    ts ≠ [] := by
  cases spelled <;> simp

theorem SpellsName.nonempty {name : ScopedName} (spelled : SpellsName name ts) : ts ≠ [] := by
  cases spelled <;> simp

theorem Renders.nonempty (renders : Renders n e ts) : ts ≠ [] := by
  induction renders with
  | binary _ _ _ _ ih => simp [ih]
  | unary => simp
  | literal spelled => exact spelled.nonempty
  | name spelled => exact spelled.nonempty
  | parens => simp

/-- An operand nests operands one level deeper, and whole expressions outside template
arguments. -/
theorem Faces.inner (faces : Faces n l s ts rest) (some : ts ≠ []) :
    ∃ l' l'' : Level, l'.left + 1 = l.left ∧ l''.left + 1 = l.left ∧ l''.inTemplate = false ∧
      levelExpr l 6 = operandWith (levelExpr l' 6) (levelExpr l'' 0) := by
  obtain ⟨limit, left, inTemplate⟩ := l
  have positive := List.length_pos_of_ne_nil some
  have room := faces.room
  cases left with
  | zero =>
    have absurd : s.operators + ts.length ≤ 0 := room
    omega
  | succ left => exact ⟨⟨limit, left, inTemplate⟩, ⟨limit, left, false⟩, rfl, rfl, rfl, rfl⟩

/-- What stands behind the first token comes next one level deeper. -/
theorem Faces.behind {l' : Level} {m : Nat} {t : Token} {us : List Token}
    (faces : Faces n l s (t :: (ts ++ us)) rest) (plain : ¬ t.kind.IsBrace)
    (outside : m < 6 → l'.inTemplate = false) (deeper : l'.left + 1 = l.left) :
    Faces m l' s.bump ts (us ++ rest) := by
  have next : s.rest = t :: (ts ++ (us ++ rest)) := by
    rw [faces.next, List.cons_append, List.append_assoc]
  refine ⟨outside, (passed_bump next plain).left next, ?_⟩
  have room := faces.room
  rw [List.length_cons, List.length_append] at room
  rw [Cursor.operators_bump]
  omega

theorem operandWith_of_unary {operand whole : Parser ConstExpr} {op : UnaryOp}
    (kind : s.kind = .punct op.mark) :
    operandWith operand whole s = (do
      let t ← bump
      let e ← operand
      return ConstExpr.unary op e (t.span.join e.span) none) s := by
  rw [operandWith, bind_apply]
  cases op <;> simp only [Grammar.kind, kind, UnaryOp.mark, unaryOp?]

theorem operandWith_of_parens {operand whole : Parser ConstExpr}
    (kind : s.kind = .punct .leftParen) :
    operandWith operand whole s = (do
      discard bump
      let e ← whole
      discard (expect .rightParen)
      return e) s := by
  rw [operandWith, bind_apply]
  simp only [Grammar.kind, kind, unaryOp?]

theorem settles_of_literal {literal : Literal} {span : Span} (spelled : SpellsLiteral literal ts) :
    Settles 6 (.literal literal span none) ts := by
  intro l s rest faces ends
  obtain ⟨l', l'', -, -, -, reader⟩ := faces.inner spelled.nonempty
  rw [reader]
  exact accepts_literal spelled faces.next ends.token

theorem settles_of_name {name : ScopedName} {span : Span} (spelled : SpellsName name ts) :
    Settles 6 (.name name span none) ts := by
  intro l s rest faces ends
  obtain ⟨l', l'', -, -, -, reader⟩ := faces.inner spelled.nonempty
  rw [reader]
  exact accepts_name spelled faces.next ends.token

theorem settles_of_unary {op : UnaryOp} {span : Span} {t : Token} (mark : t.kind = .punct op.mark)
    (some : ts ≠ []) (operand : Settles 6 e ts) : Settles 6 (.unary op e span none) (t :: ts) := by
  intro l s rest faces ends
  have next : s.rest = t :: (ts ++ rest) := faces.next
  have plain : ¬ t.kind.IsBrace := by
    rw [mark]
    cases op <;> simp [TokenKind.IsBrace, UnaryOp.mark]
  have ends : EndsAt 6 ts rest := by
    refine ⟨ends.operator, fun last mem => ends.token last ?_⟩
    rwa [← List.singleton_append, List.getLast?_append_of_ne_nil _ some]
  obtain ⟨l', l'', deeper, -, -, reader⟩ := faces.inner (List.cons_ne_nil t ts)
  have faces' : Faces 6 l' s.bump ts rest := by
    rw [← List.append_nil ts] at faces
    exact faces.behind plain (fun lower => absurd lower (by decide)) deeper
  have reads : Accepts (do
      let t ← bump
      let e ← levelExpr l' 6
      return ConstExpr.unary op e (t.span.join e.span) none) s (t :: ts)
      fun e' => e'.unplaced = (ConstExpr.unary op e span none).unplaced :=
    accepts_past rfl next plain <| (operand l' s.bump rest faces' ends).bindPure
      fun e' _ _ same => .pure (by rw [ConstExpr.unplaced, ConstExpr.unplaced, same])
  rw [reader]
  exact reads.congr (operandWith_of_unary ((Cursor.kind_of_rest next).trans mark))

/-- A mark that is no operator and starts no segment of a name ends an expression. -/
theorem EndsAt.of_punct {t : Token} {mark : Punct} (kind : t.kind = .punct mark)
    (other : ∀ op : BinaryOp, op.mark ≠ mark) (colons : mark ≠ .colonColon) (n : Nat)
    (ts more : List Token) : EndsAt n ts (t :: more) := by
  refine ⟨fun op marks more' _ spelled same => ?_, fun last _ next mem => ?_⟩
  · obtain ⟨t', _, rfl, kind'⟩ := spelled.front
    obtain rfl : t = t' := (List.cons.inj same).1
    exact other op (TokenKind.punct.inj (kind'.symm.trans kind))
  · obtain rfl : t = next := by simpa using mem
    exact not_continues kind colons

theorem settles_of_parens {opening closing : Token} (left : opening.kind = .punct .leftParen)
    (whole : Settles 0 e ts) (right : closing.kind = .punct .rightParen) :
    Settles 6 e (opening :: (ts ++ [closing])) := by
  intro l s rest faces _
  have next : s.rest = opening :: (ts ++ (closing :: rest)) := by
    rw [faces.next]
    simp
  have plain {t : Token} (kind : t.kind = .punct .leftParen ∨ t.kind = .punct .rightParen) :
      ¬ t.kind.IsBrace := by
    obtain kind | kind := kind <;> simp [TokenKind.IsBrace, kind]
  have ends : EndsAt 0 ts (closing :: rest) :=
    .of_punct right (fun op => by cases op <;> decide) (by decide) 0 ts rest
  obtain ⟨_, l', -, deeper, outside, reader⟩ := faces.inner (List.cons_ne_nil _ _)
  have faces' : Faces 0 l' s.bump ts (closing :: rest) :=
    faces.behind (plain (.inl left)) (fun _ => outside) deeper
  have reads : Accepts (do
      discard bump
      let e ← levelExpr l' 0
      discard (expect .rightParen)
      return e) s (opening :: (ts ++ [closing])) fun e' => e'.unplaced = e.unplaced := by
    refine accepts_past rfl next (plain (.inl left)) ?_
    refine (whole l' s.bump _ faces' ends).bind fun e' u passed same => ?_
    exact (accepts_expect (passed.left faces'.next) right (plain (.inr right))).discard.bindPure
      fun _ _ _ _ => .pure same
  rw [reader]
  exact reads.congr (operandWith_of_parens ((Cursor.kind_of_rest next).trans left))

/-- The reader of each level takes in what was rendered for that level. The induction is on the
rendering; the operators of one level are taken in one by one, from the left. -/
theorem begins_of_renders (renders : Renders n e ts) (top : n ≤ 6) : Begins n e ts := by
  induction renders with
  | @binary n op left right span ts marks us tight _ spelled second ih ih' =>
    have below : op.strength < 6 := op.strength_lt
    have begins : Begins op.strength (.binary op left right span none) (ts ++ (marks ++ us)) :=
      (ih (Nat.le_of_lt below)).binary spelled second.nonempty (ih' below).settles
    exact begins.lower tight (Nat.le_of_lt below)
  | unary mark operand ih =>
    have settles := (ih (Nat.le_refl _)).settles
    exact (settles_of_unary mark operand.nonempty settles).begins_top.lower top (Nat.le_refl _)
  | literal spelled => exact (settles_of_literal spelled).begins_top.lower top (Nat.le_refl _)
  | name spelled => exact (settles_of_name spelled).begins_top.lower top (Nat.le_refl _)
  | parens opening _ closing ih =>
    have settles := (ih (Nat.zero_le _)).settles
    exact (settles_of_parens opening settles closing).begins_top.lower top (Nat.le_refl _)

/-- A rendered expression is read back. The limit has to leave room for as many levels as there are
tokens. -/
theorem accepts_constExpr (renders : Renders 0 e ts) (outside : l.inTemplate = false)
    (room : ts.length ≤ l.left) (next : s.rest = ts ++ rest) (ends : EndsAt 0 ts rest) :
    Accepts (constExpr l) s ts fun e' => e'.unplaced = e.unplaced := by
  let fresh : Cursor := { s with operators := 0 }
  have faces : Faces 0 l fresh ts rest := ⟨fun _ => outside, next, by simpa [fresh] using room⟩
  obtain ⟨e', t, read, passed, same⟩ :=
    (begins_of_renders renders (Nat.zero_le _)).settles l fresh rest faces ends
  have counted : t.operators ≤ 0 + ts.length := passed.operators
  refine ⟨e', t, read, ?_, same⟩
  exact ⟨passed.rest, passed.ending, passed.braces, passed.errors, by omega⟩

/-- Constant expressions are read by the levels of their operators, each level from the left: the
tree that was rendered comes back, up to places, and just its tokens are taken. -/
theorem constExpr_of_rendered (renders : Renders 0 e ts) (outside : l.inTemplate = false)
    (room : ts.length ≤ l.left) (next : s.rest = ts ++ rest) (ends : EndsAt 0 ts rest) :
    ∃ e' s', constExpr l s = .ok e' s' ∧ e'.unplaced = e.unplaced ∧ s'.rest = rest ∧
      s'.errors = s.errors := by
  obtain ⟨e', s', read, passed, same⟩ := accepts_constExpr renders outside room next ends
  exact ⟨e', s', read, same, passed.left next, passed.errors⟩

/-- The tokens of `a - 1 << ~b`. -/
def shiftTokens : List Token := [
  ⟨.ident, "a", ⟨0, 1, 1, 1⟩⟩, ⟨.punct .minus, "-", ⟨2, 1, 1, 3⟩⟩,
  ⟨.literal .decimal, "1", ⟨4, 1, 1, 5⟩⟩, ⟨.punct .less, "<", ⟨6, 1, 1, 7⟩⟩,
  ⟨.punct .less, "<", ⟨7, 1, 1, 8⟩⟩, ⟨.punct .tilde, "~", ⟨9, 1, 1, 10⟩⟩,
  ⟨.ident, "b", ⟨10, 1, 1, 11⟩⟩]

def shiftTree : ConstExpr :=
  let a := ConstExpr.name ⟨false, ⟨"a", .empty⟩, [], .empty⟩ .empty none
  let b := ConstExpr.name ⟨false, ⟨"b", .empty⟩, [], .empty⟩ .empty none
  let one := ConstExpr.literal (.integer 1 .decimal) .empty none
  .binary .shl (.binary .sub a one .empty none) (.unary .not b .empty none) .empty none

theorem shiftTokens_render : Renders 0 shiftTree shiftTokens := by
  have a : SpellsName ⟨false, ⟨"a", .empty⟩, [], .empty⟩ [shiftTokens[0]] :=
    @SpellsName.relative _ _ [] rfl ⟨rfl, rfl⟩ .nil
  have minus : SpellsOp .sub [shiftTokens[1]] := .one (by decide) rfl
  have one : SpellsLiteral (.integer 1 .decimal) [shiftTokens[2]] := .integer (.inl rfl) rfl rfl
  have shift : SpellsOp .shl [shiftTokens[3], shiftTokens[4]] := .two (.inl rfl) rfl rfl rfl
  have b : SpellsName ⟨false, ⟨"b", .empty⟩, [], .empty⟩ [shiftTokens[6]] :=
    @SpellsName.relative _ _ [] rfl ⟨rfl, rfl⟩ .nil
  have complement : shiftTokens[5].kind = .punct UnaryOp.not.mark := rfl
  exact .binary (by decide) (.binary (by decide) (.name a) minus (.literal one)) shift
    (.unary complement (.name b))

theorem constExpr_of_shiftTokens :
    let semi : Token := ⟨.punct .semi, ";", ⟨11, 1, 1, 12⟩⟩
    let s := Cursor.ofTokens (shiftTokens ++ [semi])
    Renders 0 shiftTree shiftTokens ∧ shiftTokens.length ≤ 7 ∧ s.rest = shiftTokens ++ [semi] ∧
      EndsAt 0 shiftTokens [semi] ∧
      ∃ e' s', constExpr ⟨7, 7, false⟩ s = .ok e' s' ∧ e'.unplaced = shiftTree.unplaced ∧
        s'.rest = [semi] ∧ s'.errors = s.errors := by
  intro semi s
  have next : s.rest = shiftTokens ++ [semi] := by decide
  have ends : EndsAt 0 shiftTokens [semi] :=
    .of_punct rfl (fun op => by cases op <;> decide) (by decide) 0 shiftTokens []
  exact ⟨shiftTokens_render, by decide, next, ends,
    constExpr_of_rendered shiftTokens_render rfl (by decide) next ends⟩

end

end Idl.Grammar
