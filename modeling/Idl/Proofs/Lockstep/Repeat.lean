import Idl.Proofs.Lockstep.Rules

/-!
Repetition in lockstep. Items of a body that fail are abandoned at the same place. Main statements:
`lockstep_many` and `lockstep_bodyItems`.
-/

set_option autoImplicit false

namespace Idl.Grammar

variable {α β : Type} {m : Terms} {base : Nat} {i j : Stage} {s t : Cursor}

theorem shorter_iff {s' t' : Cursor} {used : List Token} {new : List SyntaxError}
    (left : Onward s s' used new) (right : Onward t t' used new) :
    t'.rest.length < t.rest.length ↔ s'.rest.length < s.rest.length := by
  rw [left.rest, right.rest, List.length_append, List.length_append]
  omega

theorem many_eq (stop : Cursor → Bool) (item : Parser α) (s : Cursor) : many stop item s =
    if stop s then .ok [] s
    else match item s with
      | .error e t => .error e t
      | .ok a t =>
        if t.rest.length < s.rest.length then (many stop item t).made (a :: ·) else .ok [a] t := by
  rw [many]
  split
  · rfl
  · cases item s with
    | error e t => rfl
    | ok a t =>
      dsimp only
      cases many stop item t <;> rfl

theorem lockstep_many {stop : Cursor → Bool} (respects : Respects stop) {p q : Parser α}
    (item : ∀ base s t, stop s = false → LockstepAt m base i i s t p q) :
    Lockstep m i i (many stop p) (many stop q) := by
  intro base s t link
  obtain ⟨n, length⟩ : ∃ n, s.rest.length = n := ⟨_, rfl⟩
  induction n using Nat.strong_induction_on generalizing s t with
  | _ n ih =>
    rw [many_eq, many_eq, respects link.ahead]
    split
    · exact .stays link []
    · next going =>
      have agrees := item base s t (Bool.not_eq_true _ ▸ going) link
      generalize p s = r, q t = r' at agrees
      cases agrees with
      | @ok a s' t' used new left right link' =>
        simp only [shorter_iff left right]
        split
        · next shorter =>
          exact ((ih _ (length ▸ shorter) s' t' link' rfl).made (a :: ·)).after left right
        · exact .ok left right link'
      | error left right same above operators => exact .error left right same above operators
      | @lostOk a s' _ used new left link' lost =>
        dsimp only
        split
        · next shorter =>
          exact ((ih _ (length ▸ shorter) s' s' link' rfl).made (a :: ·)).lose lost left
        · exact .lostOk left link' lost
      | lostError left above lost => exact .lostError left above lost

/-- Items that go in lockstep from wherever they begin. -/
theorem Lockstep.many {stop : Cursor → Bool} (respects : Respects stop) {p q : Parser α}
    (item : Lockstep m i i.take p q) : Lockstep m i i (many stop p) (many stop q) :=
  lockstep_many respects fun base s t _ => (item base s t).keep

theorem Lockstep.manyAfter {mark : Punct} (plain : Plain (.punct mark)) {p q : Parser α}
    (item : Lockstep m i.take i.take p q) :
    Lockstep m i i (manyAfter mark p) (manyAfter mark q) :=
  .many (respects_at? mark).not ((lockstep_expect plain).discard.bind fun _ => item)

theorem Lockstep.commaList {p q : Parser α} (item : ∀ i, Lockstep m i i.take p q) :
    Lockstep m i i.take (commaList p) (commaList q) :=
  (item i).bind fun _ =>
    (Lockstep.manyAfter (by decide) (item _)).bind fun _ => .pure _

/-! Abandoned items. -/

namespace Cursor

theorem recover_nil {s : Cursor} (none : s.rest = []) (depth : Nat) : s.recover depth = s := by
  rw [recover]
  split
  · rfl
  · next some => rw [none] at some; cases some

theorem recover_cons {s : Cursor} {t : Token} {ts : List Token} (rest : s.rest = t :: ts)
    (depth : Nat) : s.recover depth =
      if t.kind = .punct .semi ∧ s.braces = depth then s.bump
      else if t.kind = .punct .rightBrace ∧ s.braces = depth ∧ 0 < depth then s
      else s.bump.recover depth := by
  rw [recover]
  split
  · next none => rw [none] at rest; cases rest
  · next some =>
    rw [some] at rest
    obtain ⟨rfl, -⟩ := List.cons.inj rest
    rfl

theorem length_bump {s : Cursor} (present : s.rest ≠ []) : s.bump.rest.length < s.rest.length := by
  rw [rest_bump, List.length_tail]
  have := List.length_pos_of_ne_nil present
  omega

theorem length_recover_le (depth : Nat) (s : Cursor) :
    (s.recover depth).rest.length ≤ s.rest.length := by
  obtain ⟨used, took⟩ := recover_takes depth s
  rw [took, List.length_append]
  omega

/-- Only a closing brace is not passed. -/
theorem length_recover {s : Cursor} {depth : Nat} (present : s.rest ≠ [])
    (open' : s.kind ≠ .punct .rightBrace ∨ depth = 0) :
    (s.recover depth).rest.length < s.rest.length := by
  cases rest : s.rest with
  | nil => exact absurd rest present
  | cons u us =>
    have kind := kind_of_rest rest
    have shorter := rest ▸ length_bump present
    rw [recover_cons rest]
    split
    · exact shorter
    · split
      · next closes =>
        rw [← kind] at closes
        rcases open' with open' | none
        · exact absurd closes.1 open'
        · omega
      · exact (length_recover_le depth s.bump).trans_lt shorter

end Cursor

/-- What is abandoned is behind: no further token needs to be dropped. -/
theorem resume_eq {failed : Cursor} {e : SyntaxError} {used : List Token} {new : List SyntaxError}
    (left : Onward s failed used new) (present : s.rest ≠ [])
    (open' : s.kind ≠ .punct .rightBrace ∨ s.braces = 0) :
    resume s e failed = (failed.report e).recover s.braces ∧
      ((failed.report e).recover s.braces).rest.length < s.rest.length := by
  have shorter : ((failed.report e).recover s.braces).rest.length < s.rest.length := by
    cases used with
    | nil =>
      have rest : (failed.report e).rest = s.rest := left.rest.symm
      have kind : (failed.report e).kind = s.kind ∨ s.rest = [] := by
        cases some : s.rest with
        | nil => exact .inr rfl
        | cons u us => exact .inl (by
          rw [Cursor.kind_of_rest some, Cursor.kind_of_rest (rest.trans some)])
      rw [← rest]
      refine Cursor.length_recover (rest ▸ present) (open'.imp_left fun ne => ?_)
      rw [kind.resolve_right present]
      exact ne
    | cons u us =>
      refine (Cursor.length_recover_le s.braces _).trans_lt ?_
      rw [left.rest, List.length_append, List.length_cons]
      change failed.rest.length < _
      omega
  refine ⟨?_, shorter⟩
  rw [resume]
  exact if_neg (by omega)

/-- Inside of braces both readers find the same end of what is abandoned. -/
theorem recover_agrees {depth : Nat} (positive : 0 < depth) (ahead : Ahead s t)
    (same : t.braces = s.braces) (above : depth ≤ s.braces)
    (operators : m.counted → t.operators = s.operators) :
    Agrees m depth ⟨false, 0⟩ s t (.ok () (s.recover depth)) (.ok () (t.recover depth)) := by
  have link {u v : Cursor} (ahead : Ahead u v) (same : v.braces = u.braces)
      (above : depth ≤ u.braces) (operators : m.counted → v.operators = u.operators)
      (here : u.rest ≠ [] → u.braces = depth) : Link m depth ⟨false, 0⟩ u v :=
    ⟨ahead, same, above, here, nofun, operators, fun _ => positive⟩
  fun_induction Cursor.recover depth s generalizing t with
  | case1 s none =>
    have none' : t.rest = [] := by
      by_contra some
      have end' := ahead.atEnd
      rw [Cursor.atEnd, Cursor.atEnd, none, List.isEmpty_nil, List.isEmpty_iff] at end'
      exact some end'
    rw [Cursor.recover_nil none']
    exact .stays (link ahead same above operators fun some => absurd none some) ()
  | case2 s u us rest ends =>
    have present := Cursor.present_of_rest rest
    have agrees := (link ahead same above operators fun _ => ends.2).bump (j := ⟨false, 0⟩) present
      (fun _ => by omega) (by
        rw [Cursor.peek_of_rest rest, depthAfter, ends.1, ends.2]
        simp)
    obtain ⟨vs, rest'⟩ := ahead.cons rest
    rw [Cursor.recover_cons rest', same, if_pos ends]
    exact agrees.returns ()
  | case3 s u us rest going closes =>
    obtain ⟨vs, rest'⟩ := ahead.cons rest
    rw [Cursor.recover_cons rest', same, if_neg going, if_pos closes]
    exact .stays (link ahead same above operators fun _ => closes.2.1) ()
  | case4 s u us rest going open' ih =>
    have present := Cursor.present_of_rest rest
    obtain ⟨vs, rest'⟩ := ahead.cons rest
    have left := Onward.bump present fun _ => by omega
    have right := Onward.bump (ahead.rest_ne present) fun _ => by omega
    rw [Cursor.recover_cons rest', same, if_neg going, if_neg open']
    rw [ahead.peek] at right
    have braces : s.bump.braces = depthAfter s.braces u := by
      rw [braces_bump present, Cursor.peek_of_rest rest]
    have braces' : t.bump.braces = s.bump.braces := by
      rw [braces_bump (ahead.rest_ne present), braces_bump present, ahead.peek, same]
    refine (ih (ahead.onward left right) braces' ?_ ?_).after left right
    · rw [braces, depthAfter]
      split
      · omega
      · split
        · next closing =>
          have : s.braces ≠ depth := fun eq => open' ⟨closing, eq, positive⟩
          omega
        · exact above
    · rw [operators_bump, operators_bump]
      exact operators

/-! Items. -/

theorem itemList_eq (stop : Cursor → Bool) (item : Parser α) (s : Cursor) :
    itemList stop item s =
      if stop s then ([], s)
      else match item s with
        | .ok a t =>
          if t.rest.length < s.rest.length then
            (a :: (itemList stop item t).1, (itemList stop item t).2)
          else ([a], t)
        | .error e failed =>
          if (resume s e failed).rest.length < s.rest.length then
            itemList stop item (resume s e failed)
          else ([], resume s e failed) := by
  refine (itemList.eq_def stop item s).trans ?_
  cases stop s with
  | true => rfl
  | false => cases item s <;> rfl

theorem itemList_stop {stop : Cursor → Bool} {item : Parser α} {s : Cursor}
    (stopped : stop s = true) : itemList stop item s = ([], s) := by
  rw [itemList_eq, if_pos stopped]

theorem itemList_ok {stop : Cursor → Bool} {item : Parser α} {s s' : Cursor} {a : α}
    (going : ¬ stop s = true) (read : item s = .ok a s')
    (shorter : s'.rest.length < s.rest.length) : itemList stop item s =
      (a :: (itemList stop item s').1, (itemList stop item s').2) := by
  rw [itemList_eq, if_neg going, read]
  exact if_pos shorter

theorem itemList_error {stop : Cursor → Bool} {item : Parser α} {s s' : Cursor} {e : SyntaxError}
    (going : ¬ stop s = true) (read : item s = .error e s')
    (shorter : (resume s e s').rest.length < s.rest.length) :
    itemList stop item s = itemList stop item (resume s e s') := by
  rw [itemList_eq, if_neg going, read]
  exact if_pos shorter

theorem bodyItems_eq (item : Parser α) (s : Cursor) : bodyItems item s =
    .ok (itemList atClose item s).1 (itemList atClose item s).2 := rfl

/-- An item of a body stands inside of the braces that are open around it. -/
theorem Link.item {taken : Bool} {depth : Nat} (link : Link m base ⟨taken, depth + 1⟩ s t)
    (present : s.rest ≠ []) : Link { m with inner := True } s.braces ⟨false, 0⟩ s t where
  ahead := link.ahead
  same := link.same
  above := le_refl _
  braces _ := rfl
  previous := nofun
  operators := link.operators
  inner _ := by rw [link.braces present]; exact Nat.succ_pos _

theorem Link.body {taken : Bool} {depth : Nat} {s' t' : Cursor}
    (link : Link m base ⟨taken, depth + 1⟩ s t) (present : s.rest ≠ []) {i : Stage}
    (flat : i.depth = 0) (item : Link { m with inner := True } s.braces i s' t') :
    Link m base ⟨false, depth + 1⟩ s' t' where
  ahead := item.ahead
  same := item.same
  above := by
    have above := item.above
    rw [link.braces present, flat] at above
    exact above
  braces some := by rw [item.braces some, link.braces present, flat]; rfl
  previous := nofun
  operators := item.operators
  inner := link.inner

theorem lockstep_bodyItems {taken : Bool} {depth : Nat} {p q : Parser α}
    (item : Lockstep { m with inner := True } ⟨false, 0⟩ ⟨false, 0⟩ p q) :
    Lockstep m ⟨taken, depth + 1⟩ ⟨false, depth + 1⟩ (bodyItems p) (bodyItems q) := by
  intro base s t link
  replace link := link.untaken
  obtain ⟨n, length⟩ : ∃ n, s.rest.length = n := ⟨_, rfl⟩
  induction n using Nat.strong_induction_on generalizing s t with
  | _ n ih =>
    rw [bodyItems_eq, bodyItems_eq, itemList_eq, itemList_eq atClose q, respects_atClose link.ahead]
    split
    · exact .stays link []
    · next going =>
      rw [atClose, Bool.or_eq_true, not_or, Cursor.at?_iff, Cursor.atEnd, List.isEmpty_iff] at going
      obtain ⟨closed, present⟩ := going
      have positive : 0 < s.braces := (link.item present).inner trivial
      have agrees := item _ s t (link.item present)
      -- reading goes on behind what was read, or abandoned
      have next (u : Cursor) (shorter : u.rest.length < s.rest.length) (v : Cursor)
          (item : Link { m with inner := True } s.braces ⟨false, 0⟩ u v) :
          Agrees m base ⟨false, depth + 1⟩ u v (bodyItems p u) (bodyItems q v) :=
        ih _ (length ▸ shorter) u v (link.body present rfl item) rfl
      generalize p s = r, q t = r' at agrees
      cases agrees with
      | @ok a s' t' used new left right link' =>
        simp only [shorter_iff left right]
        split
        · next shorter => exact ((next s' shorter t' link').made (a :: ·)).after left right
        · exact .ok left right (link.body present rfl link')
      | @error e s' t' used new left right same above operators =>
        obtain ⟨eq, shorter⟩ := resume_eq (e := e) left present (.inl closed)
        obtain ⟨eq', shorter'⟩ := resume_eq (e := e) right (link.ahead.rest_ne present)
          (.inl (link.ahead.kind ▸ closed))
        simp only [eq, eq', if_pos shorter, if_pos shorter']
        rw [link.same]
        have left := left.report e
        have right := right.report e
        refine Agrees.after ?_ left right
        exact (recover_agrees positive (link.ahead.onward left right) same above operators).goOn rfl
          (f := bodyItems q) (next _ shorter)
      | @lostOk a s' _ used new left link' lost =>
        dsimp only
        split
        · next shorter => exact ((next s' shorter s' link').made (a :: ·)).lose lost left
        · exact .lostOk left (link.body present rfl link') lost
      | @lostError e s' _ used new left above lost =>
        obtain ⟨eq, shorter⟩ := resume_eq (e := e) left present (.inl closed)
        simp only [eq, if_pos shorter]
        have found := recover_agrees (m := { m with inner := True }) positive
          (.refl (s'.report e)) rfl above fun _ => rfl
        have agrees := found.goOn (m := m) rfl (f := bodyItems q) (next _ shorter)
        exact agrees.lose (Onward.lost_report lost) (left.report e)

/-! What stands inside of braces, read where braces are open. -/

theorem Agrees.around {taken : Bool} {depth : Nat} {r r' : Outcome α}
    (agrees : Agrees { m with inner := True } (base + depth) ⟨taken, 0⟩ s t r r')
    (inner : m.inner → 0 < base) : Agrees m base ⟨taken, depth⟩ s t r r' := by
  have around {u v : Cursor}
      (link : Link { m with inner := True } (base + depth) ⟨taken, 0⟩ u v) :
      Link m base ⟨taken, depth⟩ u v :=
    ⟨link.ahead, link.same, link.above, link.braces, link.previous, link.operators, inner⟩
  cases agrees with
  | ok left right link => exact .ok left right (around link)
  | error left right same above operators =>
    exact .error left right same (Nat.le_of_add_right_le above) operators
  | lostOk left link lost => exact .lostOk left (around link) lost
  | lostError left above lost => exact .lostError left (Nat.le_of_add_right_le above) lost

theorem Lockstep.around {taken : Bool} {depth : Nat} {p q : Parser α} (open' : 0 < depth)
    (inside : Lockstep { m with inner := True } ⟨taken, 0⟩ ⟨true, 0⟩ p q) :
    Lockstep m ⟨taken, depth⟩ ⟨true, depth⟩ p q := by
  intro base s t link
  have link' : Link { m with inner := True } (base + depth) ⟨taken, 0⟩ s t :=
    ⟨link.ahead, link.same, link.above, link.braces, link.previous, link.operators,
      fun _ => Nat.add_pos_right _ open'⟩
  exact (inside _ s t link').around link.inner

end Idl.Grammar
