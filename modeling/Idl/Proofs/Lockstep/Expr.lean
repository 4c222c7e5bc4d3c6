import Idl.Grammar.Expr
import Idl.Proofs.Lockstep.Repeat

/-!
Names, literals and constant expressions in lockstep. Operators are counted anew in each expression.
Main statement: `lockstep_constExpr`.
-/

set_option autoImplicit false

namespace Idl.Grammar

variable {α : Type} {m : Terms} {base : Nat} {i : Stage} {s t : Cursor}

/-- The levels of two readers, of which the second may nest deeper if nothing is said once the first
is at its limit. -/
structure Fits (m : Terms) (l l' : Level) : Prop where
  within : Within m l.limit l.left l'.limit l'.left
  template : l'.inTemplate = l.inTemplate

theorem Fits.inside {l l' : Level} (fits : Fits m l l') (inTemplate : Bool) :
    Fits m { l with inTemplate } { l' with inTemplate } := ⟨fits.within, rfl⟩

/-! Names. -/

theorem lockstep_ident : Lockstep m i i.take ident ident := by
  intro base s t link
  rw [ident, ident, link.ahead.peek]
  split
  · next next =>
    have plain : Plain s.kind := by rw [Cursor.kind, next]; decide
    exact (LockstepAt.bump plain link).returns _
  · exact Lockstep.expected _ base s t link

theorem lockstep_scopedName : Lockstep m i i.take scopedName scopedName :=
  .here fun _ => (lockstep_eat (by decide)).bind fun _ => lockstep_ident.bind fun _ =>
    (Lockstep.manyAfter (by decide) lockstep_ident).bind fun _ => .spanned

/-! Literals. -/

theorem LockstepAt.decoded (decode : List Char → Except LiteralFault α) (plain : Plain s.kind) :
    LockstepAt m base i i.take s t (decoded decode) (decoded decode) := by
  intro link
  have took := LockstepAt.bump plain link
  rw [Grammar.bump, Grammar.bump] at took
  rw [Grammar.decoded, Grammar.decoded, link.ahead.peek]
  cases decode s.peek.lexeme.toList with
  | ok a => exact took.returns _
  | error reason => exact took.failing _

theorem respects_kind {f : TokenKind → Bool} : Respects fun s => f s.kind := fun _ _ ahead => by
  dsimp only
  rw [ahead.kind]

theorem LockstepAt.stringRun {kind : LiteralKind} (plain : Plain s.kind) :
    LockstepAt m base i i.take s t (stringRun kind) (stringRun kind) := by
  refine (LockstepAt.decoded _ plain).bind fun _ => ?_
  refine (lockstep_many (respects_kind (f := (· != .literal kind))) fun base s t next => ?_).bind
    fun _ => .pure _
  have literal : s.kind = .literal kind := by simpa using next
  exact (LockstepAt.decoded _ (by rw [literal]; exact .literal kind)).keep

theorem lockstep_stringLiteral : Lockstep m i i.take stringLiteral stringLiteral := by
  intro base s t
  refine .test (respects_kind (f := (· == .literal .string))) ?_
  split
  · next next =>
    have literal : s.kind = .literal .string := by simpa using next
    exact (LockstepAt.stringRun (by rw [literal]; exact .literal _)).bind fun _ => .pure _
  · exact Lockstep.expected _ base s t

theorem LockstepAt.literal {k : LiteralKind} (next : s.kind = .literal k) :
    LockstepAt m base i i.take s t (literal k) (literal k) := by
  have plain : Plain s.kind := by rw [next]; exact .literal k
  cases k with
  | decimal => exact (LockstepAt.decoded _ plain).bind fun _ => .pure _
  | octal => exact (LockstepAt.decoded _ plain).bind fun _ => .pure _
  | hex => exact (LockstepAt.decoded _ plain).bind fun _ => .pure _
  | float => exact (LockstepAt.decoded _ plain).bind fun _ => .pure _
  | fixed => exact (LockstepAt.decoded _ plain).bind fun _ => .pure _
  | char => exact (LockstepAt.decoded _ plain).bind fun _ => .pure _
  | wchar => exact (LockstepAt.decoded _ plain).bind fun _ => .pure _
  | string => exact (LockstepAt.stringRun plain).bind fun _ => .pure _
  | wstring => exact (LockstepAt.stringRun plain).bind fun _ => .pure _

/-! Operators. -/

/-- What the readers see decides which operator of a level is next, and its marks are plain. -/
structure OperatorLevel.Lawful (level : OperatorLevel) : Prop where
  respects : Respects level
  first : ∀ {s : Cursor} {op : BinaryOp} {n : Nat}, level s = some (op, n) → Plain s.kind
  second : ∀ {s : Cursor} {op : BinaryOp}, level s = some (op, 2) → Plain (s.nth 1).kind

theorem lawful_oneMark {mark : Punct} (plain : Plain (.punct mark)) (op : BinaryOp) :
    (oneMark mark op).Lawful where
  respects _ _ ahead := by rw [oneMark, oneMark, ahead.at?]
  first {s _ _} found := by
    rw [oneMark] at found
    split at found
    · next next => rw [Cursor.at?_iff.mp next]; exact plain
    · cases found
  second {s _} found := by
    rw [oneMark] at found
    split at found <;> cases found

theorem lawful_eitherLevel {a b : OperatorLevel} (first : a.Lawful) (second : b.Lawful) :
    (eitherLevel a b).Lawful where
  respects _ _ ahead := by
    rw [eitherLevel, eitherLevel, first.respects ahead, second.respects ahead]
  first {s _ _} found := by
    rw [eitherLevel] at found
    cases eq : a s with
    | none => rw [eq] at found; exact second.first found
    | some step => rw [eq] at found; cases found; exact first.first eq
  second {s _} found := by
    rw [eitherLevel] at found
    cases eq : a s with
    | none => rw [eq] at found; exact second.second found
    | some step => rw [eq] at found; cases found; exact first.second eq

theorem lawful_shiftLevel (inTemplate : Bool) : (shiftLevel inTemplate).Lawful where
  respects s t ahead := by
    by_cases semi : s.kind = .punct .semi
    · have none (u : Cursor) (semi : (u.nth 0).kind = .punct .semi) :
          shiftLevel inTemplate u = none := by
        simp [shiftLevel, semi]
      rw [none s semi, none t (ahead.kind.trans semi)]
    · have peek : t.nth 0 = s.nth 0 := ahead.peek
      simp only [shiftLevel, peek, ahead.second semi]
  first {s _ _} found := by
    simp only [shiftLevel] at found
    split at found
    · cases found
    · split at found
      · next angles => rw [Cursor.kind, Cursor.peek, angles.1]; decide
      · split at found
        · next angles => rw [Cursor.kind, Cursor.peek, angles.1]; decide
        · cases found
  second {s _} found := by
    simp only [shiftLevel] at found
    split at found
    · cases found
    · split at found
      · next angles => rw [angles.2]; decide
      · split at found
        · next angles => rw [angles.2.1]; decide
        · cases found

theorem lawful_operatorLevels (inTemplate : Bool) :
    ∀ level ∈ operatorLevels inTemplate, level.Lawful := by
  have mark {mark : Punct} {op : BinaryOp} (plain : Plain (.punct mark)) :=
    lawful_oneMark plain op
  simp only [operatorLevels, List.forall_mem_cons]
  exact ⟨lawful_eitherLevel (mark (by decide))
      (lawful_eitherLevel (mark (by decide)) (mark (by decide))),
    lawful_eitherLevel (mark (by decide)) (mark (by decide)), lawful_shiftLevel inTemplate,
    mark (by decide), mark (by decide), mark (by decide), by simp⟩

/-- Counts an operator that was taken. -/
def count (l : Level) (op : BinaryOp) : Parser BinaryOp := fun s =>
  let s := { s with operators := s.operators + 1 }
  if l.left < s.operators then .error (.tooDeep l.limit s.previous) s else .ok op s

theorem operator_eq (l : Level) (op : BinaryOp) (tokens : Nat) (s : Cursor) :
    operator l op tokens s = count l op (if tokens = 2 then s.bump.bump else s.bump) := rfl

/-- The number of operators is not among what is seen. -/
theorem Ahead.operators (ahead : Ahead s t) (n n' : Nat) :
    Ahead { s with operators := n } { t with operators := n' } := by
  cases ahead with
  | whole rest ending => exact .whole rest ending
  | statement front front' ends walk => exact .statement front front' ends walk

theorem Onward.operators (s : Cursor) (n : Nat) : Onward s { s with operators := n } [] [] :=
  ⟨rfl, .nil _, (List.append_nil _).symm, rfl⟩

theorem lockstep_count {l l' : Level} (fits : Fits m l l') (counted : m.counted) (op : BinaryOp) :
    Lockstep m i.take i.take (count l op) (count l' op) := by
  intro base s t link
  have same := link.operators counted
  have link' : Link m base i.take { s with operators := s.operators + 1 }
      { t with operators := t.operators + 1 } :=
    ⟨link.ahead.operators _ _, link.same, link.above, link.braces, link.previous,
      fun _ => congrArg (· + 1) same, link.inner⟩
  simp only [count]
  split
  · next deep =>
    rcases fits.within with ⟨limit, left⟩ | ⟨-, hit⟩
    · have place : SyntaxError.tooDeep l.limit t.previous = .tooDeep l.limit s.previous := by
        rw [link.previous rfl]
      rw [if_pos (by rw [left, same]; exact deep), limit, place]
      exact .error (.operators s _) (.operators t _) link.same (Nat.le_of_add_right_le link.above)
        link'.operators
    · exact .lostError (.operators s _) (Nat.le_of_add_right_le link.above) (.inl (hit _))
  · next under =>
    have le : l.left ≤ l'.left := fits.within.elim (fun same => same.2.ge) And.left
    rw [if_neg (by rw [same]; omega)]
    exact .ok (.operators s _) (.operators t _) link'

theorem LockstepAt.operator {l l' : Level} (fits : Fits m l l') (counted : m.counted)
    {op : BinaryOp} {n : Nat} (first : Plain s.kind) (second : n = 2 → Plain (s.nth 1).kind) :
    LockstepAt m base i i.take s t (operator l op n) (operator l' op n) := by
  intro link
  rw [operator_eq, operator_eq]
  have one := LockstepAt.bump first link
  split
  · next two =>
    have kind : s.bump.kind = (s.nth 1).kind := by
      rw [Cursor.bump_of_rest (rest_of_kind first.present)]
      conv_rhs => rw [Cursor.nth, rest_of_kind first.present]
      rfl
    refine one.goOn rfl (f := fun v => count l' op v.bump) fun v link => ?_
    have two := LockstepAt.bump (by rw [kind]; exact second two) link
    exact two.goOn rfl (f := count l' op) fun v link => lockstep_count fits counted op _ _ _ link
  · exact one.goOn rfl (f := count l' op) fun v link => lockstep_count fits counted op _ _ _ link

theorem LockstepAt.operatorStep {l l' : Level} (fits : Fits m l l') (counted : m.counted)
    {level : OperatorLevel} (lawful : level.Lawful) {p q : Parser ConstExpr}
    (operand : Lockstep m i.take i.take p q) (some : (level s).isNone = false) :
    LockstepAt m base i i.take s t (operatorStep l level p) (operatorStep l' level q) := by
  intro link
  rw [Grammar.operatorStep, Grammar.operatorStep, lawful.respects link.ahead]
  cases found : level s with
  | none => rw [found] at some; cases some
  | some step =>
    obtain ⟨op, n⟩ := step
    have first :
        LockstepAt m base i i.take s t (Grammar.operator l op n) (Grammar.operator l' op n) :=
      .operator fits counted (lawful.first found) fun two => lawful.second (two ▸ found)
    exact first.bind (fun _ => operand.bind fun _ => .pure _) link

section

variable {l l' : Level} (fits : Fits m l l') (counted : m.counted) {p q : Parser ConstExpr}

include fits counted

theorem lockstep_chain (operand : ∀ i, Lockstep m i i.take p q) {level : OperatorLevel}
    (lawful : level.Lawful) (i : Stage) :
    Lockstep m i i.take (chain l p level) (chain l' q level) :=
  (operand i).bind fun _ =>
    (lockstep_many (fun _ _ ahead => by rw [lawful.respects ahead])
      fun _ _ _ some => (LockstepAt.operatorStep fits counted lawful (operand _) some).keep).bind
      fun _ => .pure _

theorem lockstep_binaryExpr (operand : ∀ i, Lockstep m i i.take p q) (i : Stage) :
    Lockstep m i i.take (binaryExpr l p) (binaryExpr l' q) := by
  have lawful := lawful_operatorLevels l.inTemplate
  rw [binaryExpr, binaryExpr, fits.template]
  generalize operatorLevels l.inTemplate = levels at lawful ⊢
  induction levels generalizing p q with
  | nil => exact operand i
  | cons level levels ih =>
    exact ih (lockstep_chain fits counted operand (lawful level (by simp)))
      fun other mem => lawful other (by simp [mem])

end

theorem plain_of_unaryOp? {k : TokenKind} {op : UnaryOp} (found : unaryOp? k = some op) :
    Plain k := by
  rw [unaryOp?.eq_def] at found
  split at found
  · decide
  · decide
  · decide
  · cases found

theorem lockstep_operandWith {p q whole whole' : Parser ConstExpr}
    (operand : ∀ i, Lockstep m i i.take p q) (wholes : ∀ i, Lockstep m i i.take whole whole')
    (i : Stage) : Lockstep m i i.take (operandWith p whole) (operandWith q whole') := by
  intro base s t
  refine .kind ?_
  cases unary : unaryOp? s.kind with
  | some op =>
    exact (LockstepAt.bump (plain_of_unaryOp? unary)).bind fun _ =>
      (operand _).bind fun _ => .pure _
  | none =>
    dsimp only
    split
    · exact (lockstep_scopedName base s t).bind fun _ => .pure _
    · exact (lockstep_scopedName base s t).bind fun _ => .pure _
    · next next => exact (LockstepAt.bump (by rw [next]; decide)).bind fun _ => .pure _
    · next next => exact (LockstepAt.bump (by rw [next]; decide)).bind fun _ => .pure _
    · next k next => exact .literal next
    · next next =>
      exact (LockstepAt.bump (by rw [next]; decide)).map.bind fun _ => (wholes _).bind fun _ =>
        (lockstep_expect (by decide)).discard.bind fun _ => .pure _
    · exact Lockstep.expected _ base s t

theorem lockstep_operand (counted : m.counted) (limit limit' left left' : Nat) (inTemplate : Bool)
    (within : Within m limit left limit' left') (i : Stage) :
    Lockstep m i i.take (operand limit left inTemplate) (operand limit' left' inTemplate) := by
  induction left generalizing left' inTemplate i with
  | zero =>
    cases left' with
    | zero =>
      exact lockstep_operandWith (fun _ => .tooDeep within fun _ => rfl)
        (fun _ => .tooDeep within fun _ => rfl) i
    | succ less =>
      exact lockstep_operandWith (fun _ => .tooDeep within nofun) (fun _ => .tooDeep within nofun) i
  | succ left ih =>
    obtain ⟨less, rfl, below⟩ := within.down
    have fits : Fits m ⟨limit, left, false⟩ ⟨limit', less, false⟩ := ⟨below, rfl⟩
    exact lockstep_operandWith (ih less inTemplate below)
      (lockstep_binaryExpr fits counted (ih less false below)) i

/-- Operators that were counted the same need not be. -/
theorem Agrees.uncounted {j : Stage} {r r' : Outcome α} {s' t' : Cursor}
    (agrees : Agrees { m with counted := True } base j s' t' r r') {new : List SyntaxError}
    (left : Onward s s' [] new) (right : Onward t t' [] new) : Agrees m base j s t r r' := by
  have relaxed {u v : Cursor} (link : Link { m with counted := True } base j u v) :
      Link m base j u v :=
    ⟨link.ahead, link.same, link.above, link.braces, link.previous,
      fun _ => link.operators trivial, link.inner⟩
  refine Agrees.after ?_ left right
  cases agrees with
  | ok left right link => exact .ok left right (relaxed link)
  | error left right same above operators =>
    exact .error left right same above fun _ => operators trivial
  | lostOk left link lost => exact .lostOk left (relaxed link) lost
  | lostError left above lost => exact .lostError left above lost

theorem lockstep_constExpr {l l' : Level} (fits : Fits m l l') :
    Lockstep m i i.take (constExpr l) (constExpr l') := by
  intro base s t link
  have link' : Link { m with counted := True } base i { s with operators := 0 }
      { t with operators := 0 } :=
    ⟨link.ahead.operators _ _, link.same, link.above, link.braces, link.previous, fun _ => rfl,
      link.inner⟩
  have fits' : Fits { m with counted := True } l l' := ⟨fits.within, fits.template⟩
  have operand (i : Stage) := lockstep_operand (m := { m with counted := True }) trivial
    l.limit l'.limit l.left l'.left l.inTemplate fits'.within i
  have agrees := lockstep_binaryExpr fits' trivial operand i _ _ _ link'
  have unfolded : constExpr l' t =
      binaryExpr l' (Grammar.operand l'.limit l'.left l.inTemplate) { t with operators := 0 } := by
    rw [← fits.template]
    rfl
  rw [unfolded]
  exact agrees.uncounted (.operators s 0) (.operators t 0)

end Idl.Grammar
