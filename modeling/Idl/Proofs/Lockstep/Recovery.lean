import Idl.Proofs.Lockstep.Unit
import Idl.Token.Lexer
import Mathlib

/-!
A malformed definition costs that definition alone: what stands in front of it and behind it is read
as if it were not there. And a unit that is read without reaching its limit on nesting is read the
same under any higher one. Main statements: `parseTokens_of_malformed` and `parseTokens_of_le`.
-/

set_option autoImplicit false

namespace Idl.Grammar

/-! Statements. -/

/-- The number of braces that tokens open. -/
def opens (ts : List Token) : Nat := ts.countP fun t => t.kind = .punct .leftBrace

/-- The number of braces that tokens close. -/
def closes (ts : List Token) : Nat := ts.countP fun t => t.kind = .punct .rightBrace

/-- Tokens close each brace that they open, and no other. -/
structure Balanced (ts : List Token) : Prop where
  inside : ∀ front, front <+: ts → closes front ≤ opens front
  whole : closes ts = opens ts

/-- The tokens are balanced, and one semicolon stands outside of braces, as the last of them. -/
structure IsStatement (ts : List Token) : Prop where
  balanced : Balanced ts
  last : ∃ before semi, ts = before ++ [semi] ∧ semi.kind = .punct .semi
  only : ∀ before semi behind, ts = before ++ semi :: behind → semi.kind = .punct .semi →
    closes before = opens before → behind = []

theorem balanced_iff (ts : List Token) : Balanced ts ↔
    (∀ front ∈ ts.inits, closes front ≤ opens front) ∧ closes ts = opens ts :=
  ⟨fun balanced => ⟨fun front mem => balanced.inside front ((List.mem_inits _ _).mp mem),
      balanced.whole⟩,
    fun counts => ⟨fun front isPrefix => counts.1 front ((List.mem_inits _ _).mpr isPrefix),
      counts.2⟩⟩

theorem isStatement_iff (ts : List Token) : IsStatement ts ↔ Balanced ts ∧
    (∃ semi ∈ ts.getLast?, semi.kind = .punct .semi) ∧
      ∀ i : Fin ts.length, ts[i].kind = .punct .semi →
        closes (ts.take i) = opens (ts.take i) → i.val + 1 = ts.length := by
  constructor
  · rintro ⟨balanced, ⟨before, semi, eq, kind⟩, only⟩
    refine ⟨balanced, ⟨semi, by simp [eq], kind⟩, fun i kind outside => ?_⟩
    have split : ts = ts.take i ++ ts[i] :: ts.drop (i + 1) := by simp
    have none := only _ _ _ split kind outside
    have := List.drop_eq_nil_iff.mp none
    omega
  · rintro ⟨balanced, ⟨semi, mem, kind⟩, only⟩
    refine ⟨balanced, ⟨ts.dropLast, semi, (List.dropLast_append_getLast? _ mem).symm, kind⟩, ?_⟩
    rintro before semi behind rfl kind outside
    have last := only ⟨before.length, by simp⟩ (by simpa using kind) (by simpa using outside)
    simp at last
    exact last

instance (ts : List Token) : Decidable (Balanced ts) := decidable_of_iff _ (balanced_iff ts).symm

instance (ts : List Token) : Decidable (IsStatement ts) :=
  decidable_of_iff _ (isStatement_iff ts).symm

theorem opens_cons (t : Token) (ts : List Token) :
    opens (t :: ts) = opens ts + if t.kind = .punct .leftBrace then 1 else 0 := by
  rw [opens, List.countP_cons, ← opens]
  simp

theorem closes_cons (t : Token) (ts : List Token) :
    closes (t :: ts) = closes ts + if t.kind = .punct .rightBrace then 1 else 0 := by
  rw [closes, List.countP_cons, ← closes]
  simp

/-- Braces counted one by one. -/
theorem depthAfter_add (depth : Nat) (t : Token) (ts : List Token)
    (open' : t.kind = .punct .rightBrace → 0 < depth) :
    depthAfter depth t + opens ts + closes (t :: ts) = depth + opens (t :: ts) + closes ts := by
  rw [opens_cons, closes_cons, depthAfter]
  by_cases left : t.kind = .punct .leftBrace
  · simp only [left, if_true]
    simp
    omega
  · rw [if_neg left, if_neg left]
    by_cases right : t.kind = .punct .rightBrace
    · have := open' right
      rw [if_pos right, if_pos right]
      omega
    · rw [if_neg right, if_neg right]
      omega

theorem walk_of_counts {depth : Nat} (ts : List Token)
    (inside : ∀ front, front <+: ts → closes front ≤ depth + opens front)
    (semis : ∀ before semi behind, ts = before ++ semi :: behind → semi.kind = .punct .semi →
      closes before < depth + opens before) : Walk depth ts (depth + opens ts - closes ts) := by
  induction ts generalizing depth with
  | nil => exact .nil depth
  | cons t ts ih =>
    have first : t.kind = .punct .rightBrace → 0 < depth := fun right => by
      have one := inside [t] ⟨ts, rfl⟩
      rw [closes_cons, opens_cons, right] at one
      simp [closes, opens] at one
      exact one
    have semi : t.kind = .punct .semi → 0 < depth := fun semi => by
      simpa [closes, opens] using semis [] t ts rfl semi
    have counted := depthAfter_add depth t ts first
    have rest := @ih (depthAfter depth t) (fun front isPrefix => by
      have counts := depthAfter_add depth t front first
      have longer := inside (t :: front) (List.cons_prefix_cons.mpr ⟨rfl, isPrefix⟩)
      omega) fun before semi behind eq kind => by
        have counts := depthAfter_add depth t before first
        have longer := semis (t :: before) semi behind (by rw [eq, List.cons_append]) kind
        omega
    have same : depthAfter depth t + opens ts - closes ts =
        depth + opens (t :: ts) - closes (t :: ts) := by
      have longer := inside (t :: ts) List.prefix_rfl
      omega
    rw [← same]
    exact .cons (fun either => either.elim semi first) rest

theorem IsStatement.walk {ts : List Token} (statement : IsStatement ts) :
    ∃ before semi, ts = before ++ [semi] ∧ semi.kind = .punct .semi ∧ Walk 0 before 0 := by
  obtain ⟨before, semi, rfl, kind⟩ := statement.last
  have whole := statement.balanced.whole
  have counts : opens (before ++ [semi]) = opens before ∧
      closes (before ++ [semi]) = closes before := by
    simp [opens, closes, kind]
  have walk := @walk_of_counts 0 before (fun front isPrefix => by
    have := statement.balanced.inside front (isPrefix.trans (List.prefix_append _ _))
    omega) fun front other behind eq kind' => by
      have le := statement.balanced.inside front ⟨other :: behind ++ [semi], by simp [eq]⟩
      have ne : closes front ≠ opens front := fun same => by
        have none := statement.only front other (behind ++ [semi]) (by simp [eq]) kind' same
        simp at none
      omega
  rw [counts.1, counts.2] at whole
  rw [whole, Nat.zero_add, Nat.sub_self] at walk
  exact ⟨before, semi, rfl, kind, walk⟩

/-! Units. -/

/-- The token is neither malformed text nor an end, and begins no import. -/
structure IsOrdinary (t : Token) : Prop where
  readable : t.isReadable = true
  noImport : t.kind ≠ .keyword .importKw

instance (t : Token) : Decidable (IsOrdinary t) :=
  decidable_of_iff (t.isReadable = true ∧ t.kind ≠ .keyword .importKw)
    ⟨fun both => ⟨both.1, both.2⟩, fun ordinary => ⟨ordinary.readable, ordinary.noImport⟩⟩

theorem stands_ofTokens {ts : List Token} (ordinary : ∀ t ∈ ts, IsOrdinary t) :
    Stands (Cursor.ofTokens ts) ts [] (Cursor.ofTokens ts).ending :=
  ⟨List.filter_eq_self.mpr fun t mem => (ordinary t mem).readable, rfl, rfl, rfl⟩

/-- A unit without imports is its definitions. -/
theorem parseTokens_of_noImport {tokens : List Token}
    (away : (Cursor.ofTokens tokens).kind ≠ .keyword .importKw) (limit : Nat) :
    parseTokens limit tokens = ⟨⟨[], (itemList (·.atEnd) (definitionAt limit limit)
        (Cursor.ofTokens tokens)).1⟩,
      (itemList (·.atEnd) (definitionAt limit limit) (Cursor.ofTokens tokens)).2.errors⟩ := by
  have none : imports (Cursor.ofTokens tokens) = ([], Cursor.ofTokens tokens) := by
    rw [imports, if_neg (Cursor.atKeyword_iff.not.mpr away)]
  rw [parseTokens, none]

theorem parseTokens_eq {ts : List Token} (ordinary : ∀ t ∈ ts, IsOrdinary t) (limit : Nat) :
    parseTokens limit ts = ⟨⟨[], (itemList (·.atEnd) (definitionAt limit limit)
        (Cursor.ofTokens ts)).1⟩,
      (itemList (·.atEnd) (definitionAt limit limit) (Cursor.ofTokens ts)).2.errors⟩ := by
  refine parseTokens_of_noImport ?_ limit
  have rest := (stands_ofTokens ordinary).rest
  cases ts with
  | nil => simp [Cursor.kind, Cursor.peek, Cursor.nth, rest]
  | cons t ts =>
    rw [Cursor.kind_of_rest rest]
    exact (ordinary t (by simp)).noImport

theorem ending_append (front : List Token) {ts : List Token} (some : ts ≠ []) :
    (Cursor.ofTokens (front ++ ts)).ending = (Cursor.ofTokens ts).ending := by
  have last : (front ++ ts).getLast? = ts.getLast? := List.getLast?_append_of_ne_nil front some
  simp only [Cursor.ofTokens, last]

/-- What stands behind is read as if nothing stood in front of it. -/
theorem itemList_behind {p : Parser Definition} (plain : EndsAlike .plain p p) {ts : List Token}
    (ordinary : ∀ t ∈ ts, IsOrdinary t) {s : Cursor} {es : List SyntaxError} {z : Span}
    (stands : Stands s ts es z) (ending : ts ≠ [] → z = (Cursor.ofTokens ts).ending) :
    (itemList (·.atEnd) p s).1 = (itemList (·.atEnd) p (Cursor.ofTokens ts)).1 ∧
      (itemList (·.atEnd) p s).2.errors =
        es ++ (itemList (·.atEnd) p (Cursor.ofTokens ts)).2.errors := by
  have fresh := stands_ofTokens ordinary
  by_cases none : ts = []
  · have stopped {u : Cursor} (rest : u.rest = ts) : u.atEnd = true := by
      rw [Cursor.atEnd, rest, none, List.isEmpty_nil]
    rw [itemList_stop (stopped stands.rest), itemList_stop (stopped fresh.rest), stands.errors,
      fresh.errors, List.append_nil]
    exact ⟨rfl, rfl⟩
  · have abreast : Abreast (Cursor.ofTokens ts) s :=
      ⟨stands.rest.trans fresh.rest.symm, stands.ending.trans (ending none),
        stands.braces.trans fresh.braces.symm, fun _ => fresh.braces⟩
    rcases itemList_whole plain plain id id abreast with ⟨new, same, errors, errors'⟩ | ⟨_, _, lost⟩
    · rw [errors, errors', fresh.errors, stands.errors]
      exact ⟨same, rfl⟩
    · exact absurd lost id

/-- A statement in which reading fails adds the errors met in it, and no definition. What stands in
front of it is read as it is without it, and so is what stands behind it. -/
theorem parseTokens_of_malformed (limit : Nat) {before malformed behind : List Token}
    (ordinary : ∀ t ∈ before ++ malformed ++ behind, IsOrdinary t)
    (quiet : (parseTokens limit before).errors = []) (statement : IsStatement malformed)
    {e : SyntaxError} {failed : Cursor}
    (fails : definitionAt limit limit (Cursor.ofTokens (malformed ++ behind)) = .error e failed) :
    parseTokens limit (before ++ malformed ++ behind) =
        ⟨⟨[], (parseTokens limit before).specification.definitions ++
            (parseTokens limit behind).specification.definitions⟩,
          (failed.errors ++ [e]) ++ (parseTokens limit behind).errors⟩ ∧
      ∃ used left, malformed = used ++ left ∧ left ≠ [] ∧ failed.rest = left ++ behind := by
  have ordinaryBefore : ∀ t ∈ before, IsOrdinary t := fun t mem => ordinary t (by simp [mem])
  have ordinaryBehind : ∀ t ∈ behind, IsOrdinary t := fun t mem => ordinary t (by simp [mem])
  have ordinaryRest : ∀ t ∈ malformed ++ behind, IsOrdinary t := fun t mem =>
    ordinary t (by rw [List.append_assoc]; exact List.mem_append_right _ mem)
  have plain : EndsAlike .plain (definitionAt limit limit) (definitionAt limit limit) :=
    ends_definition (.same _ limit limit)
  rw [parseTokens_eq ordinary, parseTokens_eq ordinaryBefore, parseTokens_eq ordinaryBehind]
  rw [parseTokens_eq ordinaryBefore] at quiet
  generalize definitionAt limit limit = p at fails quiet plain ⊢
  dsimp only at quiet ⊢
  -- what stands in front
  have start : Stands (Cursor.ofTokens (before ++ malformed ++ behind))
      (before ++ (malformed ++ behind)) []
      (Cursor.ofTokens (before ++ malformed ++ behind)).ending :=
    ⟨(stands_ofTokens ordinary).rest.trans (List.append_assoc _ _ _), rfl, rfl, rfl⟩
  obtain ⟨u, stands, front⟩ := itemList_before plain (stands_ofTokens ordinaryBefore) start quiet
  rw [front]
  -- the statement
  obtain ⟨tokens, semi, rfl, kind, walk⟩ := statement.walk
  have alone : Stands (Cursor.ofTokens (tokens ++ [semi] ++ behind)) (tokens ++ semi :: behind) []
      (Cursor.ofTokens (tokens ++ [semi] ++ behind)).ending :=
    ⟨(stands_ofTokens ordinaryRest).rest.trans (by simp), rfl, rfl, rfl⟩
  rw [List.append_assoc, List.singleton_append] at stands
  rcases statement_cases plain alone stands kind walk with
    ⟨_, _, _, _, read, _⟩ | ⟨e', s', t', used, left, new, read, read', eq, rest, errors, stands'⟩
  · rw [read] at fails
    cases fails
  rw [read] at fails
  cases fails
  have shorter : (resume u e t').rest.length < u.rest.length := by
    rw [stands'.rest, stands.rest, List.length_append, List.length_cons]
    omega
  rw [itemList_error (stands.going (by simp)) read' shorter]
  -- what stands behind it
  obtain ⟨same, errors'⟩ := itemList_behind plain ordinaryBehind stands' fun some =>
    ending_append (before ++ (tokens ++ [semi])) some
  refine ⟨?_, used, left ++ [semi], ?_, by simp, ?_⟩
  · rw [same, errors', errors]
    rfl
  · rw [eq, List.append_assoc]
  · rw [rest, List.append_assoc, List.singleton_append]

/-- The tokens that a text is read as. -/
def tokensOf (text : String) : List Token := (tokenize text).tokens.filter (·.isReadable)

theorem parseTokens_of_malformed_struct :
    (parseTokens 4 (tokensOf "native A;")).errors = [] ∧
      IsStatement (tokensOf "struct S { long; native T; };") ∧
      parseTokens 4 (tokensOf "native A;" ++ tokensOf "struct S { long; native T; };" ++
          tokensOf "native B;") =
        ⟨⟨[], (parseTokens 4 (tokensOf "native A;")).specification.definitions ++
            (parseTokens 4 (tokensOf "native B;")).specification.definitions⟩,
          .expected "identifier" ⟨.punct .semi, ";", ⟨15, 1, 1, 16⟩⟩ ::
            (parseTokens 4 (tokensOf "native B;")).errors⟩ := by
  have readable : (tokensOf "native A;" ++ tokensOf "struct S { long; native T; };" ++
      tokensOf "native B;").all (fun t => decide (IsOrdinary t)) = true := by decide +kernel
  have ordinary (t : Token) (mem : t ∈ tokensOf "native A;" ++
      tokensOf "struct S { long; native T; };" ++ tokensOf "native B;") : IsOrdinary t :=
    of_decide_eq_true (List.all_eq_true.mp readable t mem)
  have quiet : (parseTokens 4 (tokensOf "native A;")).errors = [] := by decide +kernel
  have statement : IsStatement (tokensOf "struct S { long; native T; };") :=
    of_decide_eq_true (by decide +kernel)
  -- reading fails behind four tokens, where a name is missing
  have fails (s : Cursor) (start : s = Cursor.ofTokens
      (tokensOf "struct S { long; native T; };" ++ tokensOf "native B;")) :
      definitionAt 4 4 s = .error (.expected "identifier" ⟨.punct .semi, ";", ⟨15, 1, 1, 16⟩⟩)
        s.bump.bump.bump.bump := by
    rw [start]
    cbv
  have read := (parseTokens_of_malformed 4 ordinary quiet statement (fails _ rfl)).1
  refine ⟨quiet, statement, ?_⟩
  simp only [read, errors_bump]
  rfl

/-! Nesting limits. -/

variable {s t : Cursor}

/-- An import but for the semicolon that ends it. -/
def unfinishedImport : Parser (Span × ImportTarget) := do
  let start ← expectKeyword .importKw
  let target ← if ← test (·.kind == .literal .string) then ImportTarget.file <$> stringLiteral
    else ImportTarget.scope <$> scopedName
  return (start, target)

/-- The end of an import. -/
def finishedImport (i : Span × ImportTarget) : Parser Import := do
  discard (expect .semi)
  return ⟨i.2, ← spanFrom i.1⟩

theorem importDecl_eq : importDecl = unfinishedImport >>= finishedImport := by
  simp only [importDecl, unfinishedImport, bind_assoc]
  refine bind_congr fun start => bind_congr fun isText => ?_
  cases isText <;> simp [finishedImport]

theorem finishedImport_eq (i : Span × ImportTarget) (s : Cursor) :
    finishedImport i s = if s.at? .semi then .ok ⟨i.2, s.bump.spanFrom i.1⟩ s.bump
      else .error (.expected ("`" ++ Punct.semi.text ++ "`") s.peek) s := by
  have discarded : discard (expect .semi) = expect .semi >>= fun _ => Pure.pure PUnit.unit := rfl
  rw [finishedImport, discarded, bind_assoc, bind_apply, expect]
  cases s.at? .semi <;> rfl

theorem respects_literal (kind : LiteralKind) : Respects (·.kind == .literal kind) :=
  fun _ _ ahead => by dsimp only; rw [ahead.kind]

theorem lockstep_unfinishedImport {m : Terms} {i : Stage} :
    Lockstep m i i.take unfinishedImport unfinishedImport :=
  (lockstep_expectKeyword _).bind fun _ => .test (respects_literal _) fun _ =>
    .branch (lockstep_stringLiteral.map.bind fun _ => .pure _)
      (lockstep_scopedName.map.bind fun _ => .pure _)

/-- Behind an import as many braces are open as in front of it. -/
theorem braces_importDecl {i : Import} (read : importDecl s = .ok i t) : t.braces = s.braces := by
  have agrees := lockstep_unfinishedImport (m := .plain) (i := ⟨false, 0⟩) s.braces s s
    (.outside rfl nofun (.refl s) rfl id)
  rw [importDecl_eq, bind_apply] at read
  generalize unfinishedImport s = r at agrees read
  cases agrees with
  | error => cases read
  | lostOk _ _ lost => exact absurd lost (by simp)
  | lostError => cases read
  | @ok parts u _ _ _ _ _ link =>
    simp only [finishedImport_eq] at read
    split at read
    · next semi =>
      injection read with _ last
      have kind : u.peek.kind = .punct .semi := Cursor.at?_iff.mp semi
      have present : u.rest ≠ [] := Cursor.present_of_kind (by rw [Cursor.at?_iff.mp semi]; decide)
      rw [← last, braces_bump present, link.braces present, depthAfter, kind]
      simp
    · cases read

/-- What follows the imports stands outside of braces. -/
theorem braces_imports (zero : s.rest ≠ [] → s.braces = 0) :
    (imports s).2.rest ≠ [] → (imports s).2.braces = 0 := by
  have present {s : Cursor} (next : s.atKeyword .importKw = true) : s.rest ≠ [] :=
    Cursor.present_of_kind (by rw [Cursor.atKeyword_iff.mp next]; decide)
  fun_induction imports s with
  | case1 s next i t read shorter more u eq ih =>
    rw [eq] at ih
    exact ih fun _ => (braces_importDecl read).trans (zero (present next))
  | case2 s next i t read longer =>
    exact fun _ => (braces_importDecl read).trans (zero (present next))
  | case3 s next e failed read t shorter ih => exact ih (recover_zero _)
  | case4 s next e failed read t longer => exact recover_zero _
  | case5 s other => exact zero

/-- A higher limit changes nothing in what is read without an error of nesting. -/
theorem parseTokens_of_le {limit limit' : Nat} (le : limit ≤ limit') (tokens : List Token)
    (shallow : ∀ e ∈ (parseTokens limit tokens).errors, ∀ n span, e ≠ .tooDeep n span) :
    parseTokens limit' tokens = parseTokens limit tokens := by
  let hits : Terms := ⟨fun e => ∃ span, e = .tooDeep limit span, False, False⟩
  have higher : EndsAlike hits (definitionAt limit limit) (definitionAt limit' limit') :=
    ends_definition (.inr ⟨le, fun span => ⟨span, rfl⟩⟩)
  have plain : EndsAlike .plain (definitionAt limit limit) (definitionAt limit limit) :=
    ends_definition (.same _ limit limit)
  have zero := braces_imports (s := Cursor.ofTokens tokens) fun _ => rfl
  simp only [parseTokens] at shallow ⊢
  generalize imports (Cursor.ofTokens tokens) = front at zero shallow ⊢
  obtain ⟨is, s⟩ := front
  have abreast : Abreast s s := ⟨rfl, rfl, rfl, zero⟩
  rcases itemList_whole higher plain id id abreast with ⟨new, same, errors, errors'⟩ | deep
  · rw [same, errors, errors']
  · obtain ⟨e, mem, span, rfl⟩ := deep
    exact absurd rfl (shallow _ mem limit span)

/-- Four levels deep, with a name missing at the end. -/
def nestedUnit : List Token :=
  tokensOf "import A; module M { typedef sequence<long, 1 + 2> T; native; };"

theorem parseTokens_of_le_sequence :
    (∀ e ∈ (parseTokens 4 nestedUnit).errors, ∀ n span, e ≠ .tooDeep n span) ∧
      parseTokens 256 nestedUnit = parseTokens 4 nestedUnit := by
  have errors : (parseTokens 4 nestedUnit).errors =
      [.expected "identifier" ⟨.punct .semi, ";", ⟨60, 1, 1, 61⟩⟩] := by decide +kernel
  have shallow : ∀ e ∈ (parseTokens 4 nestedUnit).errors, ∀ n span, e ≠ .tooDeep n span := by
    rw [errors]
    simp
  exact ⟨shallow, parseTokens_of_le (by decide) _ shallow⟩

end Idl.Grammar
