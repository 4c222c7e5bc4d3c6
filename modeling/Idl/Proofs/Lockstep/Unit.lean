import Idl.Proofs.Lockstep.Definition

/-!
The definitions of a unit in lockstep. Outside of braces, a definition ends with the first semicolon
that stands outside of braces, and what fails is given up to there. Main statements:
`ends_definition`, `itemList_whole` and `itemList_before`.
-/

set_option autoImplicit false

namespace Idl.Grammar

variable {m : Terms} {base limit left limit' left' : Nat} {s t : Cursor}

/-- A definition but for the semicolon that ends it. -/
def unfinished (l : Level) (inner : Inner) :
    Parser (Span × List AnnotationUse × DefinitionKind Definition) := do
  let start ← here
  let uses ← annotations l
  let what ← definitionKind l inner
  return (start, uses, what)

/-- The end of a definition. -/
def finished (d : Span × List AnnotationUse × DefinitionKind Definition) : Parser Definition := do
  discard (expect .semi)
  return ⟨d.2.1, d.2.2, ← spanFrom d.1⟩

theorem definitionWith_eq (l : Level) (inner : Inner) :
    definitionWith l inner = unfinished l inner >>= finished := by
  simp only [definitionWith, unfinished, finished, bind_assoc, pure_bind]

theorem finished_eq (d : Span × List AnnotationUse × DefinitionKind Definition) (s : Cursor) :
    finished d s = if s.at? .semi then .ok ⟨d.2.1, d.2.2, s.bump.spanFrom d.1⟩ s.bump
      else .error (.expected ("`" ++ Punct.semi.text ++ "`") s.peek) s := by
  have discarded : discard (expect .semi) = expect .semi >>= fun _ => Pure.pure PUnit.unit := rfl
  rw [finished, discarded, bind_assoc, bind_apply]
  cases semi : s.at? .semi with
  | true =>
    rw [expect, if_pos semi]
    rfl
  | false =>
    rw [expect, semi]
    rfl

/-- What two readers of a definition give that set out from `s` and `t`, where a semicolon that is
taken may be one outside of braces. -/
inductive Ends (m : Terms) (base : Nat) (s t : Cursor) :
    Outcome Definition → Outcome Definition → Prop
  | ok {d : Definition} {s' t' u v : Cursor} {used : List Token} {new : List SyntaxError}
      (left : Onward s u used new) (right : Onward t v used new) (link : Link m base ⟨true, 0⟩ u v)
      (semi : u.kind = .punct .semi) (last : s' = u.bump) (last' : t' = v.bump) :
      Ends m base s t (.ok d s') (.ok d t')
  | error {e : SyntaxError} {s' t' : Cursor} {used : List Token} {new : List SyntaxError}
      (left : Onward s s' used new) (right : Onward t t' used new) (same : t'.braces = s'.braces) :
      Ends m base s t (.error e s') (.error e t')
  | lostOk {d : Definition} {s' u : Cursor} {r : Outcome Definition} {used : List Token}
      {new : List SyntaxError} (left : Onward s u used new) (link : Link m base ⟨true, 0⟩ u u)
      (semi : u.kind = .punct .semi) (last : s' = u.bump) (lost : ∃ e ∈ u.errors, m.hit e) :
      Ends m base s t (.ok d s') r
  | lostError {e : SyntaxError} {s' : Cursor} {r : Outcome Definition} {used : List Token}
      {new : List SyntaxError} (left : Onward s s' used new)
      (lost : m.hit e ∨ ∃ e ∈ s'.errors, m.hit e) : Ends m base s t (.error e s') r

/-- The readers read definitions in lockstep, up to their semicolons. -/
def EndsAlike (m : Terms) (p q : Parser Definition) : Prop :=
  ∀ base s t, Link m base ⟨false, 0⟩ s t → Ends m base s t (p s) (q t)

theorem Ends.of_error {e : SyntaxError} {s' : Cursor} {r : Outcome Definition} {j : Stage}
    (agrees : Agrees m base j s t (.error e s') r) : Ends m base s t (.error e s') r := by
  cases agrees with
  | error left right same => exact .error left right same
  | lostError left above lost => exact .lostError left lost

theorem ends_definition (within : Within m limit left limit' left') :
    EndsAlike m (definitionAt limit left) (definitionAt limit' left') := by
  intro base s t link
  cases left with
  | zero =>
    have agrees : Agrees m base ⟨true, 0⟩ s t (definitionAt limit 0 s)
        (definitionAt limit' left' t) :=
      Lockstep.tooDeep (q := definitionAt limit' left') within (fun none => by rw [none]; rfl)
        base s t link
    exact .of_error agrees
  | succ left =>
    obtain ⟨less, rfl, below⟩ := within.down
    have fits : Fits m ⟨limit, left, false⟩ ⟨limit', less, false⟩ := ⟨below, rfl⟩
    have agrees : Agrees m base ⟨true, 0⟩ s t
        (unfinished ⟨limit, left, false⟩ ⟨definitionAt limit left, exportAt limit left⟩ s)
        (unfinished ⟨limit', less, false⟩ ⟨definitionAt limit' less, exportAt limit' less⟩ t) := by
      have lockstep := Lockstep.here (m := m) (i := ⟨false, 0⟩) fun span =>
        (lockstep_annotations fits).bind fun uses =>
        (lockstep_definitionKind (inside_at _ _ _ _ below) fits _).bind fun what =>
        Lockstep.pure (span, uses, what)
      exact lockstep base s t link
    rw [definitionAt, definitionAt, definitionWith_eq, definitionWith_eq, bind_apply, bind_apply]
    generalize unfinished ⟨limit, left, false⟩ _ s = r, unfinished ⟨limit', less, false⟩ _ t = r'
      at agrees ⊢
    cases agrees with
    | @ok d u v used new left' right' link' =>
      simp only [finished_eq, link'.ahead.at?, link'.ahead.peek]
      split
      · next semi =>
        have semi := Cursor.at?_iff.mp semi
        have present : u.rest ≠ [] := Cursor.present_of_kind (by rw [semi]; decide)
        have previous : v.bump.previous = u.bump.previous := by
          rw [previous_bump present, previous_bump (link'.ahead.rest_ne present), link'.ahead.peek]
        rw [Cursor.spanFrom, Cursor.spanFrom, previous]
        exact .ok left' right' link' semi rfl rfl
      · exact .error left' right' link'.same
    | error left' right' same above operators => exact .error left' right' same
    | @lostOk d u _ used new left' link' lost =>
      simp only [finished_eq]
      split
      · next semi => exact .lostOk left' link' (Cursor.at?_iff.mp semi) rfl lost
      · exact .lostError left' (.inr lost)
    | lostError left' above lost => exact .lostError left' lost

/-! Recovery. -/

/-- A reader passes tokens, and reports nothing. -/
theorem recover_keeps (depth : Nat) (s : Cursor) :
    (s.recover depth).errors = s.errors ∧ (s.recover depth).ending = s.ending := by
  have bumped (s : Cursor) : s.bump.errors = s.errors ∧ s.bump.ending = s.ending := by
    rw [Cursor.bump]
    split <;> exact ⟨rfl, rfl⟩
  fun_induction Cursor.recover depth s with
  | case1 s none => exact ⟨rfl, rfl⟩
  | case2 s u us rest ends => exact bumped s
  | case3 s u us rest going closes => exact ⟨rfl, rfl⟩
  | case4 s u us rest going open' ih => exact ⟨ih.1.trans (bumped s).1, ih.2.trans (bumped s).2⟩

theorem errors_resume (s : Cursor) (e : SyntaxError) (failed : Cursor) :
    (resume s e failed).errors = failed.errors ++ [e] := by
  have recovered := (recover_keeps s.braces (failed.report e)).1
  rw [resume]
  split
  · rw [errors_bump]
    exact recovered
  · exact recovered

/-- Outside of braces, what follows an abandoned definition stands outside of braces. -/
theorem recover_zero (s : Cursor) (some : (s.recover 0).rest ≠ []) : (s.recover 0).braces = 0 := by
  induction length : s.rest.length using Nat.strong_induction_on generalizing s with
  | _ n ih =>
    cases rest : s.rest with
    | nil => exact absurd (by rw [Cursor.recover_nil rest, rest]) some
    | cons u us =>
      have present := Cursor.present_of_rest rest
      rw [Cursor.recover_cons rest] at some ⊢
      split at some
      · next ends =>
        rw [if_pos ends, braces_bump present, Cursor.peek_of_rest rest, depthAfter, ends.1, ends.2]
        simp
      · next going =>
        rw [if_neg fun closes => absurd closes.2.2 (Nat.lt_irrefl 0)] at some
        rw [if_neg going, if_neg fun closes => absurd closes.2.2 (Nat.lt_irrefl 0)]
        exact ih _ (length ▸ Cursor.length_bump present) s.bump some rfl

/-- Readers over the same tokens pass the same. -/
theorem recover_same {depth : Nat} (rest : t.rest = s.rest) (braces : t.braces = s.braces) :
    (t.recover depth).rest = (s.recover depth).rest ∧
      (t.recover depth).braces = (s.recover depth).braces := by
  induction length : s.rest.length using Nat.strong_induction_on generalizing s t with
  | _ n ih =>
    cases rest' : s.rest with
    | nil =>
      rw [Cursor.recover_nil rest', Cursor.recover_nil (rest.trans rest')]
      exact ⟨rest, braces⟩
    | cons u us =>
      have present := Cursor.present_of_rest rest'
      have present' := Cursor.present_of_rest (rest.trans rest')
      have bumped : t.bump.rest = s.bump.rest := by
        rw [Cursor.rest_bump, Cursor.rest_bump, rest]
      have bumped' : t.bump.braces = s.bump.braces := by
        rw [braces_bump present, braces_bump present', Cursor.peek_of_rest rest',
          Cursor.peek_of_rest (rest.trans rest'), braces]
      rw [Cursor.recover_cons rest', Cursor.recover_cons (rest.trans rest'), braces]
      split
      · exact ⟨bumped, bumped'⟩
      · split
        · exact ⟨rest, braces⟩
        · exact ih _ (length ▸ Cursor.length_bump present) bumped bumped' rfl

/-- What is left of a statement is passed up to its semicolon, and that with it. -/
theorem recover_statement {before behind : List Token} {semi : Token}
    (ends : semi.kind = .punct .semi) (walk : Walk s.braces before 0)
    (front : s.rest = before ++ semi :: behind) :
    (s.recover 0).rest = behind ∧ (s.recover 0).braces = 0 := by
  induction before generalizing s with
  | nil =>
    have zero : s.braces = 0 := by
      cases braces : s.braces with
      | zero => rfl
      | succ n => rw [braces] at walk; cases walk
    have present := Cursor.present_of_rest front
    rw [Cursor.recover_cons front, if_pos ⟨ends, zero⟩]
    refine ⟨by rw [Cursor.rest_bump, front]; rfl, ?_⟩
    rw [braces_bump present, Cursor.peek_of_rest front, depthAfter, ends, zero]
    simp
  | cons u us ih =>
    cases walk with
    | cons inner walk =>
      have present := Cursor.present_of_rest front
      have going : ¬ (u.kind = .punct .semi ∧ s.braces = 0) := fun semi =>
        absurd (inner (.inl semi.1)) (by omega)
      rw [Cursor.recover_cons front, if_neg going,
        if_neg fun closes => absurd closes.2.2 (Nat.lt_irrefl 0)]
      refine ih ?_ (by rw [Cursor.rest_bump, front]; rfl)
      rw [braces_bump present, Cursor.peek_of_rest front]
      exact walk

/-! Units. -/

/-- A cursor outside of braces, from which a definition may be read. -/
theorem Link.outside (zero : s.braces = base) (open' : m.inner → 0 < base)
    (ahead : Ahead s t) (same : t.braces = s.braces) (uncounted : ¬ m.counted) :
    Link m base ⟨false, 0⟩ s t :=
  ⟨ahead, same, zero.ge, fun _ => zero, nofun, fun counted => absurd counted uncounted, open'⟩

/-- One and the same limit, with nothing lost. -/
abbrev Terms.plain : Terms := ⟨fun _ => False, False, False⟩

theorem Within.same (m : Terms) (limit left : Nat) : Within m limit left limit left :=
  .inl ⟨rfl, rfl⟩

/-- A reader stands outside of braces, in front of `rest`. -/
structure Stands (s : Cursor) (rest : List Token) (errors : List SyntaxError) (ending : Span) :
    Prop where
  rest : s.rest = rest
  braces : s.braces = 0
  errors : s.errors = errors
  ending : s.ending = ending

theorem Stands.going {rest : List Token} {es : List SyntaxError} {z : Span}
    (stands : Stands s rest es z) (some : rest ≠ []) : ¬ s.atEnd = true := by
  rwa [Cursor.atEnd, List.isEmpty_iff, stands.rest]

section

variable {before left : List Token} {semi : Token} {es : List SyntaxError} {z : Span}

/-- A semicolon outside of braces is the one that ends the statement. -/
theorem rest_of_semi {used : List Token} {new : List SyntaxError} {u : Cursor}
    (stands : Stands s (before ++ semi :: left) es z) (kind : semi.kind = .punct .semi)
    (walk : Walk 0 before 0) (onward : Onward s u used new) (zero : u.braces = 0)
    (next : u.kind = .punct .semi) : u.rest = semi :: left := by
  have walk' := onward.walk
  rw [stands.braces] at walk'
  obtain ⟨more, rfl, rest, walk⟩ := walk'.split kind walk (stands.rest ▸ onward.rest)
  rw [zero] at walk
  cases walk with
  | nil => exact rest
  | cons inner _ =>
    rw [List.cons_append] at rest
    rw [Cursor.kind_of_rest rest] at next
    exact absurd (inner (.inl next)) (Nat.lt_irrefl 0)

/-- Past the semicolon fewer tokens are left. -/
theorem Onward.shorter {used : List Token} {new : List SyntaxError} {u : Cursor}
    (onward : Onward s u used new) (next : u.kind = .punct .semi) :
    u.bump.rest.length < s.rest.length := by
  have front : u.rest = u.peek :: u.bump.rest := rest_of_kind (by rw [next]; decide)
  rw [onward.rest, front, List.length_append, List.length_cons]
  omega

theorem Onward.stands {used : List Token} {new : List SyntaxError} {u : Cursor}
    (onward : Onward s u used new) (stands : Stands s (before ++ semi :: left) es z)
    (rest : u.rest = semi :: left) (zero : u.braces = 0) (kind : semi.kind = .punct .semi) :
    Stands u.bump left (es ++ new) z where
  rest := by rw [Cursor.bump_of_rest rest]
  braces := by simp [Cursor.bump_of_rest rest, depthAfter, kind, zero]
  errors := by rw [Cursor.bump_of_rest rest, onward.errors, stands.errors]
  ending := by rw [Cursor.bump_of_rest rest, onward.ending, stands.ending]

end

section

variable {p : Parser Definition} (ends : EndsAlike .plain p p)

include ends

theorem ends_self (s : Cursor) : Ends .plain s.braces s s (p s) (p s) :=
  ends _ s s (Link.outside rfl nofun (.refl s) rfl id)

/-- What is read is a definition with its semicolon, the first one outside of braces. -/
theorem definition_ok {d : Definition} {s' : Cursor} (read : p s = .ok d s') :
    ∃ used semi new, s.rest = used ++ semi :: s'.rest ∧ Walk s.braces used s.braces ∧
      semi.kind = .punct .semi ∧ s'.errors = s.errors ++ new := by
  have ends := ends_self ends s
  rw [read] at ends
  cases ends with
  | @ok _ _ _ u _ used new left _ link semi last _ =>
    have some : u.kind ≠ .eof := by rw [semi]; decide
    have present := Cursor.present_of_kind some
    have braces : u.braces = s.braces := link.braces present
    refine ⟨used, u.peek, new, ?_, braces ▸ left.walk, semi, ?_⟩
    · rw [last, left.rest, rest_of_kind some]
    · rw [last, errors_bump, left.errors]
  | lostOk _ _ _ _ lost => exact absurd lost (by simp)

theorem definition_error {e : SyntaxError} {s' : Cursor} (read : p s = .error e s') :
    ∃ used new, Onward s s' used new := by
  have ends := ends_self ends s
  rw [read] at ends
  cases ends with
  | error left _ _ => exact ⟨_, _, left⟩
  | lostError left _ => exact ⟨_, _, left⟩

/-- Reading on, errors are added. -/
theorem prefix_itemList (stop : Cursor → Bool) (s : Cursor) :
    s.errors <+: (itemList stop p s).2.errors := by
  induction length : s.rest.length using Nat.strong_induction_on generalizing s with
  | _ n ih =>
    rw [itemList_eq]
    split
    · exact List.prefix_rfl
    · cases read : p s with
      | ok d s' =>
        obtain ⟨_, _, new, _, _, _, errors⟩ := definition_ok ends read
        have grown : s.errors <+: s'.errors := ⟨new, errors.symm⟩
        dsimp only
        split
        · next shorter => exact grown.trans (ih _ (length ▸ shorter) s' rfl)
        · exact grown
      | error e s' =>
        obtain ⟨used, new, onward⟩ := definition_error ends read
        have grown : s.errors <+: (resume s e s').errors := by
          rw [errors_resume, onward.errors, List.append_assoc]
          exact List.prefix_append _ _
        dsimp only
        split
        · next shorter => exact grown.trans (ih _ (length ▸ shorter) _ rfl)
        · exact grown

variable {before left right : List Token} {semi : Token} {es fs : List SyntaxError} {y z : Span}

/-- From the tokens of one statement on, readers in lockstep take that statement, or else fail in it
and give it up. -/
theorem statement_cases (stands : Stands s (before ++ semi :: left) es y)
    (stands' : Stands t (before ++ semi :: right) fs z) (kind : semi.kind = .punct .semi)
    (walk : Walk 0 before 0) :
    (∃ d s' t' new, p s = .ok d s' ∧ p t = .ok d t' ∧ Stands s' left (es ++ new) y ∧
        Stands t' right (fs ++ new) z) ∨
      ∃ e s' t' used more new, p s = .error e s' ∧ p t = .error e t' ∧ before = used ++ more ∧
        s'.rest = more ++ semi :: left ∧ s'.errors = es ++ new ∧
        Stands (resume t e t') right (fs ++ (new ++ [e])) z := by
  have ahead : Ahead s t :=
    .statement stands.rest stands'.rest kind (by rw [stands.braces]; exact walk)
  have agrees := ends 0 s t (Link.outside stands.braces nofun ahead
    (stands'.braces.trans stands.braces.symm) id)
  generalize p s = r, p t = r' at agrees
  cases agrees with
  | @ok d _ _ u v used new onward onward' link next last last' =>
    have present : u.rest ≠ [] := Cursor.present_of_kind (by rw [next]; decide)
    have zero : u.braces = 0 := link.braces present
    have zero' : v.braces = 0 := link.same.trans zero
    have rest := rest_of_semi stands kind walk onward zero next
    have rest' := rest_of_semi stands' kind walk onward' zero' (link.ahead.kind.trans next)
    exact .inl ⟨d, _, _, new, rfl, rfl, last ▸ onward.stands stands rest zero kind,
      last' ▸ onward'.stands stands' rest' zero' kind⟩
  | @error e s' t' used new onward onward' same =>
    have split := onward.walk
    rw [stands.braces] at split
    obtain ⟨more, eq, rest, walk'⟩ := split.split kind walk (stands.rest ▸ onward.rest)
    have rest' : t'.rest = more ++ semi :: right := by
      have tokens := stands'.rest.symm.trans onward'.rest
      rw [eq, List.append_assoc] at tokens
      exact (List.append_cancel_left tokens).symm
    have present : t.rest ≠ [] := by rw [stands'.rest]; simp
    obtain ⟨resumed, -⟩ := resume_eq (e := e) onward' present (.inr stands'.braces)
    rw [stands'.braces] at resumed
    obtain ⟨behind, zero⟩ := recover_statement (s := t'.report e) kind (same ▸ walk') rest'
    refine .inr ⟨e, s', t', used, more, new, rfl, rfl, eq, rest, ?_, ?_⟩
    · rw [onward.errors, stands.errors]
    · refine ⟨by rw [resumed]; exact behind, by rw [resumed]; exact zero, ?_, ?_⟩
      · rw [errors_resume, onward'.errors, stands'.errors, List.append_assoc]
      · rw [resumed, (recover_keeps 0 _).2]
        exact onward'.ending.trans stands'.ending
  | lostOk _ _ _ _ lost => exact absurd lost (by simp)
  | lostError _ lost => exact absurd lost (by simp)

/-- A reader of definitions that reports nothing does the same in front of other tokens, and then
reads on with these. -/
theorem itemList_before {tokens more : List Token} {es fs : List SyntaxError} {y z : Span}
    (stands : Stands s tokens es y) (stands' : Stands t (tokens ++ more) fs z)
    (quiet : (itemList (·.atEnd) p s).2.errors = es) :
    ∃ u, Stands u more fs z ∧ itemList (·.atEnd) p t =
      ((itemList (·.atEnd) p s).1 ++ (itemList (·.atEnd) p u).1, (itemList (·.atEnd) p u).2) := by
  induction length : tokens.length using Nat.strong_induction_on generalizing tokens s t with
  | _ n ih =>
    by_cases none : tokens = []
    · have stopped : s.atEnd = true := by rw [Cursor.atEnd, stands.rest, none, List.isEmpty_nil]
      rw [itemList_stop stopped]
      rw [none, List.nil_append] at stands'
      exact ⟨t, stands', rfl⟩
    have going := stands.going none
    cases read : p s with
    | error e s' =>
      -- the error would stay
      obtain ⟨used, new, onward⟩ := definition_error ends read
      obtain ⟨eq, shorter⟩ := resume_eq (e := e) onward (by rw [stands.rest]; exact none)
        (.inr stands.braces)
      rw [← eq] at shorter
      rw [itemList_error going read shorter] at quiet
      have grown := prefix_itemList ends (·.atEnd) (resume s e s')
      rw [quiet, errors_resume, onward.errors, stands.errors] at grown
      have longer := grown.length_le
      simp only [List.length_append, List.length_singleton] at longer
      omega
    | ok d s' =>
      obtain ⟨used, semi, new, front, walk, kind, errors⟩ := definition_ok ends read
      rw [stands.rest] at front
      rw [stands.braces] at walk
      rw [front, List.append_assoc, List.cons_append] at stands'
      rw [front] at stands
      rcases statement_cases ends stands stands' kind walk with
        ⟨_, _, t', more', read', read'', next, next'⟩ | ⟨_, _, _, _, _, _, failed, _⟩
      · rw [read] at read'
        cases read'
        have shorter : s'.rest.length < s.rest.length := by simp [stands.rest]; omega
        have shorter' : t'.rest.length < t.rest.length := by
          simp [stands'.rest, next'.rest]
          omega
        rw [itemList_ok going read shorter] at quiet ⊢
        rw [itemList_ok (stands'.going (by simp)) read'' shorter']
        -- nothing was reported on the way
        have nothing : more' = [] := by
          have grown := (prefix_itemList ends (·.atEnd) s').length_le
          rw [quiet, next.errors, List.length_append] at grown
          exact List.eq_nil_of_length_eq_zero (by omega)
        rw [nothing, List.append_nil] at next next'
        obtain ⟨u, stands'', eq⟩ := ih _ (by rw [← length, front]; simp; omega) next next' quiet rfl
        exact ⟨u, stands'', by rw [eq]; rfl⟩
      · rw [read] at failed
        cases failed

end

/-- Two readers with the same tokens left, outside of braces unless none are. -/
structure Abreast (s t : Cursor) : Prop where
  rest : t.rest = s.rest
  ending : t.ending = s.ending
  same : t.braces = s.braces
  zero : s.rest ≠ [] → s.braces = 0

namespace Abreast

variable {u v : Cursor} {used : List Token} {new : List SyntaxError}

theorem onward (abreast : Abreast s t) (left : Onward s u used new) (right : Onward t v used new) :
    v.rest = u.rest ∧ v.ending = u.ending := by
  have rest := abreast.rest
  rw [left.rest, right.rest] at rest
  exact ⟨List.append_cancel_left rest, by rw [left.ending, right.ending, abreast.ending]⟩

/-- Behind the semicolon of a definition. -/
theorem bump (abreast : Abreast s t) (left : Onward s u used new) (right : Onward t v used new)
    (braces : v.braces = u.braces) (zero : u.braces = 0) (next : u.kind = .punct .semi) :
    Abreast u.bump v.bump := by
  obtain ⟨rest, ending⟩ := abreast.onward left right
  have front := rest_of_kind (s := u) (by rw [next]; decide)
  have kind : u.peek.kind = .punct .semi := next
  rw [Cursor.bump_of_rest front, Cursor.bump_of_rest (rest.trans front)]
  exact ⟨rfl, ending, congrArg (depthAfter · _) braces, fun _ => by simp [depthAfter, kind, zero]⟩

/-- Behind a definition that was given up. -/
theorem recover (abreast : Abreast s t) (left : Onward s u used new) (right : Onward t v used new)
    (braces : v.braces = u.braces) (e : SyntaxError) :
    Abreast ((u.report e).recover 0) ((v.report e).recover 0) := by
  obtain ⟨rest, ending⟩ := abreast.onward left right
  obtain ⟨rest', braces'⟩ : ((v.report e).recover 0).rest = ((u.report e).recover 0).rest ∧
      ((v.report e).recover 0).braces = ((u.report e).recover 0).braces :=
    recover_same rest braces
  refine ⟨rest', ?_, braces', recover_zero _⟩
  rw [(recover_keeps 0 _).2, (recover_keeps 0 _).2]
  exact ending

end Abreast

/-- Readers of definitions over the same tokens return and report the same, unless one of the errors
is one after which nothing is said. -/
theorem itemList_whole {p q : Parser Definition} (ends : EndsAlike m p q)
    (plain : EndsAlike .plain p p) (open' : ¬ m.inner) (uncounted : ¬ m.counted)
    (abreast : Abreast s t) :
    (∃ new, (itemList (·.atEnd) q t).1 = (itemList (·.atEnd) p s).1 ∧
        (itemList (·.atEnd) p s).2.errors = s.errors ++ new ∧
        (itemList (·.atEnd) q t).2.errors = t.errors ++ new) ∨
      ∃ e ∈ (itemList (·.atEnd) p s).2.errors, m.hit e := by
  induction length : s.rest.length using Nat.strong_induction_on generalizing s t with
  | _ n ih =>
    have atEnd : t.atEnd = s.atEnd := by rw [Cursor.atEnd, Cursor.atEnd, abreast.rest]
    by_cases stopped : s.atEnd = true
    · rw [itemList_stop stopped, itemList_stop (atEnd.trans stopped)]
      exact .inl ⟨[], rfl, (List.append_nil _).symm, (List.append_nil _).symm⟩
    have going : ¬ t.atEnd = true := by rwa [atEnd]
    have some : s.rest ≠ [] := by rwa [Cursor.atEnd, List.isEmpty_iff] at stopped
    have some' : t.rest ≠ [] := by rwa [abreast.rest]
    have zero := abreast.zero some
    have zero' : t.braces = 0 := abreast.same.trans zero
    have agrees := ends 0 s t (Link.outside zero (fun inner => absurd inner open')
      (.whole abreast.rest abreast.ending) abreast.same uncounted)
    generalize read : p s = r, read' : q t = r' at agrees
    cases agrees with
    | @ok d s' t' u v used new left right link next last last' =>
      have closed : u.braces = 0 := link.braces (Cursor.present_of_kind (by rw [next]; decide))
      have abreast' := abreast.bump left right link.same closed next
      rw [← last, ← last'] at abreast'
      have shorter := last ▸ left.shorter next
      have shorter' : t'.rest.length < t.rest.length := by
        rw [abreast'.rest, abreast.rest]
        exact shorter
      rw [itemList_ok stopped read shorter, itemList_ok going read' shorter']
      refine (ih _ (length ▸ shorter) abreast' rfl).imp_left fun found => ?_
      obtain ⟨more, same, errors, errors'⟩ := found
      refine ⟨new ++ more, congrArg (d :: ·) same, ?_, ?_⟩
      · rw [errors, last, errors_bump, left.errors, List.append_assoc]
      · rw [errors', last', errors_bump, right.errors, List.append_assoc]
    | @error e s' t' used new left right same' =>
      obtain ⟨eq, shorter⟩ := resume_eq (e := e) left some (.inr zero)
      obtain ⟨eq', shorter'⟩ := resume_eq (e := e) right some' (.inr zero')
      have abreast' := abreast.recover left right same' e
      rw [zero] at eq shorter
      rw [zero'] at eq' shorter'
      rw [← eq] at shorter abreast'
      rw [← eq'] at shorter' abreast'
      rw [itemList_error stopped read shorter, itemList_error going read' shorter']
      refine (ih _ (length ▸ shorter) abreast' rfl).imp_left fun found => ?_
      obtain ⟨more, same, errors, errors'⟩ := found
      refine ⟨new ++ [e] ++ more, same, ?_, ?_⟩
      · rw [errors, errors_resume, left.errors, List.append_assoc, List.append_assoc,
          List.append_assoc]
      · rw [errors', errors_resume, right.errors, List.append_assoc, List.append_assoc,
          List.append_assoc]
    | @lostOk d s' u _ used new left link next last lost =>
      have shorter := last ▸ left.shorter next
      obtain ⟨e, mem, hit⟩ := lost
      rw [itemList_ok stopped read shorter]
      refine .inr ⟨e, (prefix_itemList plain _ s').subset ?_, hit⟩
      rwa [last, errors_bump]
    | @lostError e s' _ used new left lost =>
      obtain ⟨eq, shorter⟩ := resume_eq (e := e) left some (.inr zero)
      rw [← eq] at shorter
      obtain ⟨e', mem, hit⟩ := Onward.lost_report lost
      rw [itemList_error stopped read shorter]
      refine .inr ⟨e', (prefix_itemList plain _ _).subset ?_, hit⟩
      rw [errors_resume]
      exact mem

end Idl.Grammar
