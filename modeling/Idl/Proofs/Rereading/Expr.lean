import Idl.Proofs.Grammar.TypeTokens
import Idl.Proofs.Nesting.Operators
import Idl.Proofs.Rereading.Walk

/-!
Constant expressions are read back from their chunks. Each operator of two operands stands in
parentheses, so it takes one level for them and one for itself. Main statement:
`rereads_constExpr`.
-/

set_option autoImplicit false

namespace Idl

/-- The levels that the expression needs as it is written. -/
def ConstExpr.cost (e : ConstExpr) : Nat := 2 * e.operations + e.signs

theorem ConstExpr.operations_unplaced (e : ConstExpr) : e.unplaced.operations = e.operations := by
  induction e with
  | binary op left right span value ih ih' => simp [unplaced, operations, ih, ih']
  | unary op operand span value ih => simp [unplaced, operations, ih]
  | literal | name => rfl

/-- A mark comes next that goes on with no name. -/
def FacesMark (r : List Chunk) : Prop := ∃ m, front r = .punct m ∧ m ≠ .colonColon

/-- Where an expression ends: a closing angle ends one within template arguments only. -/
def EndsExpr (inTemplate : Bool) (r : List Chunk) : Prop :=
  ∃ m, front r = .punct m ∧ (m ∈ [Punct.comma, .semi, .colon, .rightParen, .rightBracket] ∨
    m = .greater ∧ inTemplate = true)

theorem EndsExpr.facesMark {inTemplate : Bool} {r : List Chunk} (ends : EndsExpr inTemplate r) :
    FacesMark r := by
  obtain ⟨m, mark, closing | ⟨rfl, -⟩⟩ := ends
  · refine ⟨m, mark, ?_⟩
    rintro rfl
    exact absurd closing (by decide)
  · exact ⟨_, mark, by decide⟩

namespace Grammar

variable {l : Level} {limit left room : Nat} {inTemplate : Bool} {e : ConstExpr}
  {p : Parser ConstExpr} {r ds es : List Chunk}

/-- With room for what the expression needs, the reader takes its chunks and counts its
operators. -/
def Takes (room : Nat) (p : Parser ConstExpr) (e : ConstExpr) (r ds : List Chunk) : Prop :=
  ∀ s : Cursor, s.operators + e.cost ≤ room → Spelled r s.rest →
    ∃ e' t, p s = .ok e' t ∧ Spelled ds t.rest ∧ t.errors = s.errors ∧
      t.operators = s.operators + e.operations ∧ e'.unplaced = e.unplaced

/-! Operators. -/

theorem spelled_mark {m : Punct} {s : Cursor} (spelled : Spelled (.mark m :: r) s.rest) :
    s.kind = .punct m ∧ Spelled r s.bump.rest := by
  refine ⟨s.kind_of_spelled spelled, ?_⟩
  obtain ⟨us, vs, rest, spells, spelled⟩ := spelled
  obtain ⟨t, rfl, -⟩ := single_mark us vs spells
  rwa [s.rest_bump, rest]

/-- Marks that end an expression are no operators. -/
theorem no_operator_of_ends {s : Cursor} (ends : EndsExpr inTemplate r)
    (spelled : Spelled r s.rest) : ∀ level ∈ operatorLevels inTemplate, level s = none := by
  obtain ⟨m, mark, closing⟩ := ends
  have kind : s.kind = .punct m := (s.kind_of_spelled spelled).trans mark
  have first : (s.nth 0).kind = .punct m := kind
  simp only [List.mem_cons, List.not_mem_nil, or_false] at closing
  rcases closing with (rfl | rfl | rfl | rfl | rfl) | ⟨rfl, rfl⟩ <;>
    simp [operatorLevels, eitherLevel, oneMark, shiftLevel, Cursor.at?, kind, first]

/-- Tighter levels do not see an operator. -/
theorem no_tighter_operator {op : BinaryOp} {s : Cursor} (kind : s.kind = .punct op.mark) :
    ∀ level ∈ (operatorLevels false).take (6 - (op.strength + 1)), level s = none := by
  have first : (s.nth 0).kind = .punct op.mark := kind
  cases op <;>
    simp [operatorLevels, BinaryOp.strength, BinaryOp.mark, eitherLevel, oneMark, shiftLevel,
      Cursor.at?] at * <;> simp [kind, first]

/-- Operators that are not there are not waited for. -/
theorem Takes.chains (levels : List OperatorLevel) (takes : Takes room p e r ds)
    (none : ∀ s : Cursor, Spelled ds s.rest → ∀ level ∈ levels, level s = none) :
    Takes room (levels.foldl (chain l) p) e r ds := by
  induction levels generalizing p with
  | nil => exact takes
  | cons level levels ih =>
    refine ih (fun s enough spelled => ?_) fun s spelled other mem =>
      none s spelled other (List.mem_cons_of_mem _ mem)
    obtain ⟨e', t, read, spelled, rest⟩ := takes s enough spelled
    have stop := none t spelled level (List.mem_cons_self ..)
    have nothing : many (fun s => (level s).isNone) (operatorStep l level p) t = .ok [] t := by
      rw [many_eq, if_pos (by simp [stop])]
    refine ⟨e', t, ?_, spelled, rest⟩
    simp only [chain, bind, EStateM.bind, read, nothing]
    rfl

/-- An operator and the operand behind it. -/
theorem step_of_spelled {op : BinaryOp} {right : ConstExpr}
    (second : Takes l.left (levelExpr l (op.strength + 1)) right ds es) {s : Cursor}
    (enough : s.operators + 1 + right.cost ≤ l.left)
    (spelled : Spelled (.op op :: .blank :: ds) s.rest) :
    ∃ step t, operatorStep l (levelAt op.strength) (levelExpr l (op.strength + 1)) s = .ok step t ∧
      Spelled es t.rest ∧ t.errors = s.errors ∧
      t.operators = s.operators + 1 + right.operations ∧ step.1 = op ∧
      step.2.unplaced = right.unplaced := by
  obtain ⟨us, vs, next, spells, gap, vs', rfl, blank, spelled⟩ := spelled
  cases blank
  cases spells with
  | op marks =>
    obtain ⟨op', t, read, passed, rfl⟩ := accepts_operator (l := l) marks next (by omega)
    obtain ⟨n, counted, -, rfl⟩ := tallies_operator l _ _ s _ t read
    have left : Spelled ds t.rest := by
      rw [passed.left next]
      exact spelled
    obtain ⟨e', u, read', spelled, errors, counted', same⟩ := second t (by omega) left
    refine ⟨(op', e'), u, ?_, spelled, errors.trans passed.errors, by omega, rfl, same⟩
    rw [operatorStep, levelAt_of_spelled marks next]
    dsimp only
    rw [bind_apply, read]
    dsimp only
    rw [bind_apply, read']
    rfl

/-- An operator between two operands is taken by its level. -/
theorem takes_binary {op : BinaryOp} {left right : ConstExpr} (span : Span)
    (outside : l.inTemplate = false)
    (first : Takes l.left (levelExpr l (op.strength + 1)) left r
      (.blank :: .op op :: .blank :: ds))
    (second : Takes l.left (levelExpr l (op.strength + 1)) right ds es)
    (ends : EndsExpr false es) (grows : (kinds es).length ≤ (kinds ds).length) :
    Takes (l.left + 1) (levelExpr l op.strength) (.binary op left right span none) r es := by
  intro s enough spelled
  have cost : s.operators + left.cost ≤ l.left ∧
      s.operators + left.operations + 1 + right.cost ≤ l.left := by
    simp only [ConstExpr.cost, ConstExpr.operations, ConstExpr.signs] at enough ⊢
    omega
  obtain ⟨left', t, read, spelled, errors, counted, same⟩ := first s cost.1 spelled
  rw [spelled_gap] at spelled
  obtain ⟨step, u, read', spelled', errors', counted', same_op, same'⟩ :=
    step_of_spelled second (by omega) spelled
  have going : levelAt op.strength t ≠ none := by
    obtain ⟨us, vs, next, spells, -⟩ := spelled
    cases spells with
    | op marks =>
      rw [levelAt_of_spelled marks next]
      exact Option.some_ne_none _
  have stop : levelAt op.strength u = none := by
    rw [Option.eq_none_iff_forall_ne_some]
    rintro ⟨op', k⟩ found
    obtain ⟨-, marks, more, spelled_op, next⟩ := spelled_of_levelAt found
    obtain ⟨first, _, rfl, kind⟩ := spelled_op.front
    obtain ⟨m, mark, closing⟩ := ends
    have closes : m = op'.mark := by
      have same : front es = .punct op'.mark :=
        (u.kind_of_spelled spelled').symm.trans ((Cursor.kind_of_rest next).trans kind)
      rw [mark] at same
      exact TokenKind.punct.inj same
    cases op' <;> simp [closes, BinaryOp.mark] at closing
  have shorter : u.rest.length < t.rest.length := by
    rw [length_of_spelled spelled', length_of_spelled spelled, kinds_cons, List.length_append]
    have some : 0 < (Chunk.op op).kinds.length := by cases op <;> decide
    exact Nat.lt_of_le_of_lt grows (Nat.lt_add_of_pos_left some)
  obtain ⟨op', right'⟩ := step
  obtain rfl : op' = op := same_op
  refine ⟨joined left' (op', right'), u, ?_, spelled', errors'.trans errors, ?_,
    ConstExpr.unplaced_of_joined op' same same' span⟩
  · rw [levelExpr_of_lower outside op'.strength_lt, bind_apply, read]
    dsimp only
    rw [goOn_eq, many_eq, if_neg (by simpa using going), read']
    simp only [if_pos shorter]
    rw [many_eq, if_pos (by simp [stop])]
    rfl
  · rw [counted', counted, ConstExpr.operations]
    omega

/-! Operands. -/

theorem operand_of_levels (l : Level) : ∃ inner whole, levelExpr l 6 = operandWith inner whole := by
  obtain ⟨limit, left, inTemplate⟩ := l
  cases left with
  | zero => exact ⟨_, _, rfl⟩
  | succ left => exact ⟨_, _, rfl⟩

/-- One level down, an operand is read behind its sign or its parenthesis. -/
theorem operand_succ (limit left : Nat) (inTemplate : Bool) :
    levelExpr ⟨limit, left + 1, inTemplate⟩ 6 =
      operandWith (levelExpr ⟨limit, left, inTemplate⟩ 6) (levelExpr ⟨limit, left, false⟩ 0) := rfl

/-- The looser levels go on with what a level reads. -/
theorem levelExpr_zero (l : Level) (n : Nat) : levelExpr l 0 =
    ((operatorLevels l.inTemplate).drop (6 - n)).foldl (chain l) (levelExpr l n) := by
  have whole : levelExpr l 0 = ((operatorLevels l.inTemplate).take (6 - n) ++
      (operatorLevels l.inTemplate).drop (6 - n)).foldl (chain l) (levelExpr l 6) := by
    rw [List.take_append_drop]
    rfl
  rw [whole, List.foldl_append]
  rfl

/-- The operators of an operand that was read were counted. -/
theorem counts_of_read {e' : ConstExpr} {s t : Cursor} (read : levelExpr l 6 s = .ok e' t)
    (same : e'.unplaced = e.unplaced) : t.operators = s.operators + e.operations := by
  obtain ⟨n, counted, -, rfl⟩ := tallies_operand l.limit l.left l.inTemplate s e' t read
  rw [counted, ← e'.operations_unplaced, same, e.operations_unplaced]

theorem takes_of_accepts {c : Chunk}
    (accepts : ∀ s us vs, s.rest = us ++ vs → c.Spells us vs →
      (∀ t ∈ vs.head?, t.kind = front r) →
        Accepts (levelExpr l 6) s us fun e' => e'.unplaced = e.unplaced) :
    Takes room (levelExpr l 6) e (c :: r) r := by
  intro s _ spelled
  obtain ⟨e', t, read, spelled, errors, same⟩ := rereads_of_accepts accepts s spelled
  exact ⟨e', t, read, spelled, errors, counts_of_read read same, same⟩

theorem not_continues_of_facesMark (faces : FacesMark r) {last next : Token}
    (kind : next.kind = front r) : ¬ Continues last next := by
  obtain ⟨m, mark, colons⟩ := faces
  exact not_continues (kind.trans mark) colons

/-- An operator in parentheses is taken as an operand if its operands are. -/
theorem takes_parens {op : BinaryOp} {left right : ConstExpr} {span : Span} {limit n : Nat}
    {inTemplate : Bool}
    (first : ∀ r, FacesMark r →
      Takes n (levelExpr ⟨limit, n, false⟩ 6) left (left.chunks ++ r) r)
    (second : ∀ r, FacesMark r →
      Takes n (levelExpr ⟨limit, n, false⟩ 6) right (right.chunks ++ r) r) :
    Takes (n + 1) (levelExpr ⟨limit, n + 1, inTemplate⟩ 6) (.binary op left right span none)
      ((ConstExpr.binary op left right span none).chunks ++ r) r := by
  intro s enough spelled
  simp only [ConstExpr.chunks, List.cons_append, List.append_assoc, List.nil_append] at spelled
  obtain ⟨kind, behind⟩ := spelled_mark spelled
  let l : Level := ⟨limit, n, false⟩
  have closing : EndsExpr false (.mark .rightParen :: r) := ⟨_, rfl, .inl (by decide)⟩
  have mark : FacesMark (.blank :: .op op :: .blank ::
      (right.chunks ++ .mark .rightParen :: r)) :=
    ⟨op.mark, by cases op <;> rfl, by cases op <;> decide⟩
  have one : Takes n (levelExpr l (op.strength + 1)) left _ _ :=
    (first _ mark).chains _ fun s spelled => no_tighter_operator <|
      (s.kind_of_spelled spelled).trans (by cases op <;> rfl)
  have two : Takes n (levelExpr l (op.strength + 1)) right _ _ :=
    (second _ closing.facesMark).chains _ fun s spelled level mem =>
      no_operator_of_ends closing spelled level (List.mem_of_mem_take mem)
  have both := takes_binary (l := l) span rfl one two closing (by
    rw [kinds_append, List.length_append]
    exact Nat.le_add_left _ _)
  have whole := both.chains (l := l) ((operatorLevels false).drop (6 - op.strength))
    fun s spelled level mem =>
      no_operator_of_ends closing spelled level (List.mem_of_mem_drop mem)
  rw [← levelExpr_zero l op.strength] at whole
  obtain ⟨e', t, read, spelled, errors, -, same⟩ := whole s.bump (by rwa [operators_bump]) behind
  obtain ⟨_, u, read', spelled, errors', rfl⟩ :=
    rereads_mark (k := fun _ => pure e') (R := (e' = ·)) (.pure rfl) t spelled
  have reads : levelExpr ⟨limit, n + 1, inTemplate⟩ 6 s = .ok e' u := by
    rw [operand_succ, operandWith_of_parens kind, bind_apply]
    change (levelExpr l 0 >>= _) s.bump = _
    rw [bind_apply, read]
    exact read'
  exact ⟨e', u, reads, spelled, by rw [errors', errors, errors_bump],
    counts_of_read reads same, same⟩

/-- An operand is read back. The induction is on the expression; parentheses stand around each
operator of two operands. -/
theorem takes_operand (formed : e.Formed) (faces : FacesMark r) :
    Takes l.left (levelExpr l 6) e (e.chunks ++ r) r := by
  induction e generalizing l r with
  | literal lit span value =>
    obtain ⟨-, rfl⟩ := formed
    refine takes_of_accepts fun s us vs next spells follows => ?_
    cases spells with
    | literal kind spelled =>
      obtain ⟨inner, whole, same⟩ := operand_of_levels l
      rw [same]
      refine accepts_literal spelled next fun last _ t mem => ?_
      exact not_continues_of_facesMark faces (follows t mem)
  | name n span value =>
    obtain ⟨-, rfl⟩ := formed
    refine takes_of_accepts fun s us vs next spells follows => ?_
    cases spells with
    | name spelled =>
      obtain ⟨inner, whole, same⟩ := operand_of_levels l
      rw [same]
      refine accepts_name spelled next fun last _ t mem => ?_
      exact not_continues_of_facesMark faces (follows t mem)
  | unary o inner span value ih =>
    obtain ⟨formed, rfl⟩ := formed
    intro s enough spelled
    obtain ⟨kind, behind⟩ := spelled_mark spelled
    have cost : s.operators + inner.cost + 1 ≤ l.left := enough
    obtain ⟨limit, left, inTemplate⟩ := l
    obtain ⟨left, rfl⟩ : ∃ n, left = n + 1 := ⟨left - 1, by dsimp only at cost; omega⟩
    obtain ⟨e', t, read, spelled, errors, -, same⟩ :=
      ih (l := ⟨limit, left, inTemplate⟩) formed faces s.bump
        (by rw [operators_bump]; dsimp only at cost ⊢; omega) behind
    have reads : levelExpr ⟨limit, left + 1, inTemplate⟩ 6 s =
        .ok (.unary o e' (s.peek.span.join e'.span) none) t := by
      rw [operand_succ, operandWith_of_unary kind, bind_apply, bump]
      dsimp only
      rw [bind_apply, read]
      rfl
    have unplaced : (ConstExpr.unary o e' (s.peek.span.join e'.span) none).unplaced =
        (ConstExpr.unary o inner span none).unplaced := by
      rw [ConstExpr.unplaced, ConstExpr.unplaced, same]
    exact ⟨_, t, reads, spelled, errors.trans (errors_bump s), counts_of_read reads unplaced,
      unplaced⟩
  | binary op first second span value ih ih' =>
    obtain ⟨formed, formed', rfl⟩ := formed
    obtain ⟨limit, left, inTemplate⟩ := l
    cases left with
    | zero =>
      intro s enough
      simp [ConstExpr.cost, ConstExpr.operations] at enough
    | succ left =>
      exact takes_parens (fun _ => ih (l := ⟨limit, left, false⟩) formed)
        fun _ => ih' (l := ⟨limit, left, false⟩) formed'

/-- A constant expression is read back in front of what ends it. -/
theorem rereads_constExpr (formed : e.Formed) (enough : e.cost ≤ l.left)
    (ends : EndsExpr l.inTemplate r) :
    Rereads (constExpr l) (e.chunks ++ r) r fun e' => e'.unplaced = e.unplaced := by
  have takes := (takes_operand (l := l) formed ends.facesMark).chains (l := l)
    (operatorLevels l.inTemplate) fun s spelled => no_operator_of_ends ends spelled
  intro s spelled
  obtain ⟨e', t, read, spelled, errors, -, same⟩ :=
    takes { s with operators := 0 } (by simpa using enough) spelled
  exact ⟨e', t, read, spelled, errors, same⟩

end Grammar

end Idl
