import Idl.Parse
import Idl.Proofs.Grammar.Printed
import Idl.Proofs.Grammar.TypeTokens
import Idl.Proofs.Lockstep.Recovery

/-!
A constant is read back from its text. Main statements: `parseText_of_scanned`, for a text of one
definition, and `parseText_of_constText`.
-/

set_option autoImplicit false

namespace Idl

/-- The definition is a constant of type `long` with the name and, up to places, the value. -/
def Definition.IsConst (name : String) (e : ConstExpr) (d : Definition) : Prop :=
  d.annotations = [] ∧ ∃ c, d.kind = .const c ∧ c.type = .primitive .long ∧ c.name.name = name ∧
    c.value.unplaced = e.unplaced

namespace Grammar

variable {α : Type} {l : Level} {s : Cursor} {t u : Token} {ts rest : List Token}

theorem accepts_noAnnotations (other : s.kind ≠ .punct .atSign) :
    Accepts (annotations l) s [] (· = []) :=
  accepts_none (by simp [Cursor.at?_iff.not.mpr other])

/-! Constants. -/

/-- The tokens of a constant of type `long`. -/
inductive SpellsConst (name : String) (e : ConstExpr) : List Token → Prop
  | intro {word long ident equals semi : Token} {ts : List Token}
    (word_kind : word.kind = .keyword .const) (long_kind : long.kind = .keyword .long)
    (names : Names ident ⟨name, .empty⟩) (equals_kind : equals.kind = .punct .equals)
    (value : Renders 0 e ts) (semi_kind : semi.kind = .punct .semi) :
    SpellsConst name e (word :: long :: ident :: equals :: (ts ++ [semi]))

theorem definitionKind_of_const {inner : Inner} (kind : s.kind = .keyword .const) :
    definitionKind l inner s = (do return DefinitionKind.const (← constDecl l)) s := by
  rw [definitionKind, bind_apply]
  simp only [Grammar.kind, kind]

theorem accepts_constDecl {name : String} {e : ConstExpr} {word long ident equals : Token}
    (next : s.rest = word :: long :: ident :: equals :: (ts ++ rest))
    (word_kind : word.kind = .keyword .const) (long_kind : long.kind = .keyword .long)
    (names : Names ident ⟨name, .empty⟩) (equals_kind : equals.kind = .punct .equals)
    (value : Renders 0 e ts) (ends : EndsAt 0 ts rest) (outside : l.inTemplate = false)
    (room : ts.length ≤ l.left) :
    Accepts (constDecl l) s (word :: long :: ident :: equals :: ts) fun c =>
      c.type = .primitive .long ∧ c.name.name = name ∧ c.value.unplaced = e.unplaced := by
  have type : SpellsType (.primitive .long) [long] := .primitive (.cons long_kind .nil)
  have follows : FollowsType (ident :: equals :: (ts ++ rest)) := by
    simpa [FollowsType] using .inl names.kind
  have positive : 0 < l.left := Nat.lt_of_lt_of_le (List.length_pos_of_ne_nil value.nonempty) room
  refine (accepts_expectKeyword next word_kind).discard.bind fun _ s passed _ => ?_
  have next := passed.left next
  refine (accepts_typeSpec type positive next follows).bind fun type s passed type_eq => ?_
  have next := passed.left next
  refine (accepts_ident next names).bind fun i s passed name_eq => ?_
  have next := passed.left next
  have plain : ¬ equals.kind.IsBrace := by simp [TokenKind.IsBrace, equals_kind]
  refine (accepts_expect next equals_kind plain).discard.bind fun _ s passed _ => ?_
  have next := passed.left next
  refine (accepts_constExpr value outside room next ends).bindPure fun e' _ _ same => .pure ?_
  exact ⟨TypeSpec.primitive_of_unplaced type_eq, congrArg Ident.name name_eq, same⟩

/-- A definition without annotations is read from the tokens of its kind and a semicolon. -/
theorem accepts_definitionWith {inner : Inner} {word : Keyword} {semi : Token}
    {Q : DefinitionKind Definition → Prop} (word_kind : t.kind = .keyword word)
    (next : s.rest = t :: (ts ++ [semi])) (semi_kind : semi.kind = .punct .semi)
    (kind : ∀ s, s.rest = t :: (ts ++ [semi]) → Accepts (definitionKind l inner) s (t :: ts) Q) :
    Accepts (definitionWith l inner) s (t :: (ts ++ [semi]))
      fun d => d.annotations = [] ∧ Q d.kind := by
  refine accepts_here.bind fun start s passed _ => ?_
  have next := passed.left next
  have noMark : s.kind ≠ .punct .atSign := by
    rw [Cursor.kind_of_rest next, word_kind]
    simp
  refine (accepts_noAnnotations noMark).bind fun uses s passed none => ?_
  have next := passed.left next
  refine (kind s next).bind fun k s passed holds => ?_
  have plain : ¬ semi.kind.IsBrace := by simp [TokenKind.IsBrace, semi_kind]
  have next := passed.left next
  refine (accepts_expect next semi_kind plain).discard.bindPure fun _ s _ _ => ?_
  exact (accepts_spanFrom start).bind fun span _ _ _ => .pure ⟨none, holds⟩

/-- A constant is read from its tokens if the limit leaves room for its value. -/
theorem accepts_definition_of_const {name : String} {e : ConstExpr} {limit left : Nat}
    (spelled : SpellsConst name e ts) (next : s.rest = ts) (room : ts.length ≤ left + 5) :
    Accepts (definitionAt limit (left + 1)) s ts (Definition.IsConst name e) := by
  obtain @⟨word, long, ident, equals, semi, ts, word_kind, long_kind, names, equals_kind, value,
    semi_kind⟩ := spelled
  let l : Level := ⟨limit, left, false⟩
  have room : ts.length ≤ left := by
    simp only [List.length_cons, List.length_append, List.length_nil] at room
    omega
  have ends : EndsAt 0 ts [semi] :=
    .of_punct semi_kind (fun op => by cases op <;> decide) (by decide) 0 ts []
  have kind (s : Cursor) (next : s.rest = word :: ((long :: ident :: equals :: ts) ++ [semi])) :
      Accepts (definitionKind l ⟨definitionAt limit left, exportAt limit left⟩) s
        (word :: long :: ident :: equals :: ts) fun k =>
        ∃ c, k = .const c ∧ c.type = .primitive .long ∧ c.name.name = name ∧
          c.value.unplaced = e.unplaced := by
    refine Accepts.congr ?_ (definitionKind_of_const ((Cursor.kind_of_rest next).trans word_kind))
    exact (accepts_constDecl next word_kind long_kind names equals_kind value ends
      (show l.inTemplate = false from rfl) room).bindPure fun c _ _ holds => .pure ⟨c, rfl, holds⟩
  exact accepts_definitionWith word_kind next semi_kind kind

/-! Texts of one definition. -/

/-- One item takes all tokens. -/
theorem itemList_of_accepts {p : Parser α} {Q : α → Prop} (next : s.rest = ts) (some : ts ≠ [])
    (reads : Accepts p s ts Q) :
    ∃ a t, itemList (·.atEnd) p s = ([a], t) ∧ t.errors = s.errors ∧ Q a := by
  obtain ⟨a, t, read, passed, holds⟩ := reads
  have done : t.atEnd = true := by
    have left := passed.left (next.trans (List.append_nil ts).symm)
    rw [Cursor.atEnd, left, List.isEmpty_nil]
  have going : ¬ s.atEnd = true := by simpa [Cursor.atEnd, next] using some
  refine ⟨a, t, ?_, passed.errors, holds⟩
  rw [itemList_ok going read (passed.shorter some), itemList_stop done]

end Grammar

open Grammar in
/-- A text is read as one definition if its tokens are. -/
theorem parseText_of_scanned {text : String} {ts : List Token} {limit : Nat}
    {Q : Definition → Prop} (scanned : Scanned Place.start text.toList [] ts) (some : ts ≠ [])
    (noImport : ∀ t ∈ ts.head?, t.kind ≠ .keyword .importKw)
    (reads : ∀ s, s.rest = ts → Accepts (definitionAt limit limit) s ts Q) :
    (parseText limit text).diagnostics = [] ∧
      ∃ d, (parseText limit text).specification = ⟨[], [d]⟩ ∧ Q d := by
  let tokens := ts ++ [endToken text.toList]
  have next : (Cursor.ofTokens tokens).rest = ts := by
    have readable : ts.filter (·.isReadable) = ts := List.filter_eq_self.mpr scanned.readable
    have unreadable : (endToken text.toList).isReadable = false := rfl
    simp only [Cursor.ofTokens, tokens, List.filter_append, readable,
      List.filter_cons_of_neg (Bool.not_eq_true _ ▸ unreadable), List.filter_nil, List.append_nil]
  obtain ⟨d, t, items, errors, holds⟩ := itemList_of_accepts next some (reads _ next)
  have parsed : parseTokens limit tokens = ⟨⟨[], [d]⟩, []⟩ := by
    have none := Cursor.kind_ne_of_head next (by simp) noImport
    have errors : t.errors = [] := errors
    have whole := parseTokens_of_noImport none limit
    generalize itemList (·.atEnd) (definitionAt limit limit) (Cursor.ofTokens tokens) = r
      at items whole
    rw [whole, items, errors]
  have lexed : tokenize text = ⟨tokens, []⟩ := tokenize_of_scanned scanned
  refine ⟨?_, d, ?_, holds⟩
  · rw [parseText]
    simp only [lexed, parsed]
    exact List.mergeSort_nil
  · rw [parseText]
    simp only [lexed, parsed]

/-- The text of a constant of type `long`. -/
def constText (e : ConstExpr) : String := "const long X = " ++ e.text ++ ";"

open Grammar in
theorem scans_constText {e : ConstExpr} (printable : e.Printable) (p : Place) :
    Scans p (constText e).toList [] (SpellsConst "X" e) := by
  have lead : "const long X = ".toList = Keyword.const.text.toList ++ ([' '] ++
      (Keyword.long.text.toList ++ ([' '] ++ ("X".toList ++ ([' '] ++
        (Punct.equals.text.toList ++ [' '])))))) := rfl
  have closing : ";".toList = Punct.semi.text.toList := rfl
  have ident : IsIdent "X" := ⟨⟨'X', [], rfl, by decide, by simp⟩, by decide⟩
  change Scans p ("const long X = " ++ e.text ++ ";").toList [] (SpellsConst "X" e)
  rw [String.toList_append, String.toList_append, lead, closing]
  simp only [List.append_assoc]
  refine (Scanned.keyword .const (.cons (by decide))).bind ?_
  refine (Scanned.blank _ _).bind ?_
  refine (Scanned.keyword .long (.cons (by decide))).bind ?_
  refine (Scanned.blank _ _).bind ?_
  refine (Scanned.ident ident (.cons (by decide))).bind ?_
  refine (Scanned.blank _ _).bind ?_
  refine (Scanned.plainMark .equals (by decide) _ _).bind ?_
  refine (Scanned.blank _ _).bind ?_
  refine (printable.scans _ (.cons (by decide))).bind fun ts renders => ?_
  refine (Scanned.plainMark .semi (by decide) _ _).scans ?_
  exact .intro rfl rfl ⟨rfl, rfl⟩ rfl (renders.mono (Nat.zero_le _)) rfl

open Grammar in
/-- Printing an expression and reading it again gives the expression back, up to places. -/
theorem parseText_of_constText {e : ConstExpr} (printable : e.Printable) {limit : Nat}
    (room : (constText e).length ≤ limit) :
    (parseText limit (constText e)).diagnostics = [] ∧
      ∃ d, (parseText limit (constText e)).specification = ⟨[], [d]⟩ ∧ d.IsConst "X" e := by
  obtain ⟨ts, scanned, spelled⟩ := scans_constText printable Place.start
  have few : ts.length ≤ limit := by
    have few := scanned.few
    rw [String.length_toList] at few
    exact Nat.le_trans few room
  have some : ts ≠ [] := by cases spelled; simp
  have noImport : ∀ t ∈ ts.head?, t.kind ≠ .keyword .importKw := by
    obtain ⟨word_kind, -, -, -, -, -⟩ := spelled
    simp [word_kind]
  refine parseText_of_scanned scanned some noImport fun s next => ?_
  obtain ⟨left, rfl⟩ : ∃ left, limit = left + 1 := by
    have positive := List.length_pos_of_ne_nil some
    exact ⟨limit - 1, by omega⟩
  exact accepts_definition_of_const spelled next (by omega)

/-- The expression `(~::A::B << (0x1f + '\n'))`. -/
def shiftedName : ConstExpr :=
  let name := ConstExpr.name ⟨true, ⟨"A", .empty⟩, [⟨"B", .empty⟩], .empty⟩ .empty none
  let number := ConstExpr.literal (.integer 31 .hex) .empty none
  let char := ConstExpr.literal (.char '\n') .empty none
  .binary .shl (.unary .not name .empty none) (.binary .add number char .empty none) .empty none

theorem parseText_of_shiftedName :
    shiftedName.Printable ∧ (constText shiftedName).length ≤ 64 ∧
      (parseText 64 (constText shiftedName)).diagnostics = [] ∧
      ∃ d, (parseText 64 (constText shiftedName)).specification = ⟨[], [d]⟩ ∧
        d.IsConst "X" shiftedName := by
  have first : IsIdent "A" := ⟨⟨'A', [], rfl, by decide, by simp⟩, by decide⟩
  have second : IsIdent "B" := ⟨⟨'B', [], rfl, by decide, by simp⟩, by decide⟩
  have name : ConstExpr.Printable
      (.name ⟨true, ⟨"A", .empty⟩, [⟨"B", .empty⟩], .empty⟩ .empty none) := by
    refine .name ?_
    simp only [ScopedName.segments, List.forall_mem_cons]
    exact ⟨first, second, by simp⟩
  have number : Literal.Printable (.integer 31 .hex) :=
    show 31 < UInt64.size by decide
  have char : Literal.Printable (.char '\n') := trivial
  have printable : shiftedName.Printable :=
    .binary (.unary name) (.binary (.literal number) (.literal char))
  have room : (constText shiftedName).length ≤ 64 := by decide
  exact ⟨printable, room, parseText_of_constText printable room⟩

end Idl
