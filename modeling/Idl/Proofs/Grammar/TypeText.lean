import Idl.Proofs.Grammar.ConstText

/-!
A type is read back from its text: base types, names and templates, nested to any depth, with
expressions for bounds. Main statements: `TypeSpec.Printable.scans` and `parseText_of_typedefText`.
-/

set_option autoImplicit false

namespace Idl

/-- The type is made of base types, names of identifiers and templates, with bounds that are
printable. -/
inductive TypeSpec.Printable : TypeSpec → Prop
  | primitive {k : Primitive} : Printable (.primitive k)
  | named {name : ScopedName} (idents : ∀ i ∈ name.segments, IsIdent i.name) :
    Printable (.named ⟨name, none⟩)
  | sequence {element : TypeSpec} {b : Option ConstExpr} (first : element.Printable)
    (bound : ∀ e ∈ b, e.Printable) : Printable (.sequence element b)
  | set {element : TypeSpec} {b : Option ConstExpr} (first : element.Printable)
    (bound : ∀ e ∈ b, e.Printable) : Printable (.set element b)
  | map {key value : TypeSpec} {b : Option ConstExpr} (first : key.Printable)
    (second : value.Printable) (bound : ∀ e ∈ b, e.Printable) : Printable (.map key value b)
  | string {b : Option ConstExpr} (bound : ∀ e ∈ b, e.Printable) : Printable (.string b)
  | wstring {b : Option ConstExpr} (bound : ∀ e ∈ b, e.Printable) : Printable (.wstring b)
  | anyFixed : Printable (.fixed none)
  | fixed {digits scale : ConstExpr} (first : digits.Printable) (second : scale.Printable) :
    Printable (.fixed (some (digits, scale)))

/-- The definition gives the name to a type that is, up to places, the one given. -/
def Definition.IsTypedef (name : String) (t : TypeSpec) (d : Definition) : Prop :=
  d.annotations = [] ∧ ∃ type i, d.kind = .typedef ⟨type, [⟨i, []⟩]⟩ ∧ i.name = name ∧
    type.unplaced = t.unplaced

/-! The parts of the text. -/

theorem Primitive.text_eq (k : Primitive) :
    k.text = " ".intercalate (k.words.map Keyword.text) := by
  cases k <;> rfl

namespace Grammar

variable {p : Place} {after : List Char}

theorem delimited_words (words : List Keyword) (delimited : Delimited after) :
    Delimited ((words.flatMap fun w => " ".toList ++ w.text.toList) ++ after) := by
  cases words with
  | nil => exact delimited
  | cons w words => exact .cons (by decide)

/-- The words behind the first one. -/
theorem scans_words (words : List Keyword) (delimited : Delimited after) :
    Scans p (words.flatMap fun w => " ".toList ++ w.text.toList) after
      fun ts => SpellsWords ts words := by
  induction words generalizing p with
  | nil => exact (Scanned.nil p after).scans .nil
  | cons w words ih =>
    rw [List.flatMap_cons, List.append_assoc]
    refine (Scanned.blank p _).bind ?_
    refine (Scanned.keyword w (delimited_words words delimited)).bind ?_
    exact ih.imp fun ts spelled => .cons rfl spelled

theorem scans_primitive (k : Primitive) (delimited : Delimited after) :
    Scans p k.text.toList after (SpellsType (.primitive k)) := by
  obtain ⟨w, words, whole⟩ : ∃ w words, k.words = w :: words := by
    cases k <;> exact ⟨_, _, rfl⟩
  rw [k.text_eq, whole, List.map_cons, toList_intercalate_cons, List.flatMap_map]
  refine (Scanned.keyword w (delimited_words words delimited)).bind ?_
  refine (scans_words words delimited).imp fun ts spelled => .primitive ?_
  rw [whole]
  exact .cons rfl spelled

theorem scans_bound {b : Option ConstExpr} (printable : ∀ e ∈ b, e.Printable)
    (delimited : Delimited after) : Scans p (Printer.bound b).toList after (SpellsBound b) := by
  cases b with
  | none => exact (Scanned.nil p after).scans .none
  | some e =>
    have text : (Printer.bound (some e)).toList =
        Punct.comma.text.toList ++ ([' '] ++ e.text.toList) := by
      simp [Printer.bound, Punct.text]
    rw [text]
    refine (Scanned.plainMark .comma (by decide) p _).bind ?_
    refine (Scanned.blank _ _).bind ?_
    exact ((printable e rfl).scans _ delimited).imp fun ts value => .some rfl value

theorem scans_stringBound {b : Option ConstExpr} (printable : ∀ e ∈ b, e.Printable) :
    Scans p (Printer.stringBound b).toList after (SpellsTextBound b) := by
  cases b with
  | none => exact (Scanned.nil p after).scans .none
  | some e =>
    have text : (Printer.stringBound (some e)).toList =
        Punct.less.text.toList ++ (e.text.toList ++ Punct.greater.text.toList) := by
      simp [Printer.stringBound, Punct.text]
    rw [text]
    refine (Scanned.plainMark .less (by decide) p _).bind ?_
    refine ((printable e rfl).scans _ (.cons (by decide))).bind fun ts value => ?_
    exact (Scanned.plainMark .greater (by decide) _ after).scans (.some ⟨rfl, rfl⟩ value)

/-- A word and arguments in angles. -/
theorem scans_template (word : Keyword) {args : List Char} {P : List Token → Prop}
    (inner : ∀ p, Scans p args (Punct.greater.text.toList ++ after) P) :
    Scans p (word.text.toList ++ (Punct.less.text.toList ++
      (args ++ Punct.greater.text.toList))) after fun us =>
      ∃ head less greater ts, us = head :: less :: (ts ++ [greater]) ∧
        head.kind = .keyword word ∧ Angles less greater ∧ P ts := by
  refine (Scanned.keyword word (.cons (by decide))).bind ?_
  refine (Scanned.plainMark .less (by decide) _ _).bind ?_
  refine (inner _).bind fun ts spelled => ?_
  refine (Scanned.plainMark .greater (by decide) _ after).scans ?_
  exact ⟨_, _, _, ts, rfl, rfl, ⟨rfl, rfl⟩, spelled⟩

/-- Behind a type stands a bound or the closing angle. -/
theorem delimited_bound (b : Option ConstExpr) :
    Delimited ((Printer.bound b).toList ++ (Punct.greater.text.toList ++ after)) := by
  cases b with
  | none => exact .cons (by decide)
  | some e =>
    rw [Printer.bound, String.toList_append]
    exact .cons (by decide)

/-- A template of one type and a bound. -/
theorem scans_listing {word : Keyword} {make : TypeSpec → Option ConstExpr → TypeSpec}
    {element : TypeSpec} {b : Option ConstExpr} (template : Listing word make)
    (first : ∀ p after, Delimited after → Scans p element.text.toList after (SpellsType element))
    (bound : ∀ e ∈ b, e.Printable) :
    Scans p (make element b).text.toList after (SpellsType (make element b)) := by
  have text : (make element b).text.toList = word.text.toList ++ (Punct.less.text.toList ++
      ((element.text.toList ++ (Printer.bound b).toList) ++ Punct.greater.text.toList)) := by
    cases template <;> simp [TypeSpec.text, Printer.typeSpec, Punct.text, Keyword.text]
  have args (p : Place) : Scans p (element.text.toList ++ (Printer.bound b).toList)
      (Punct.greater.text.toList ++ after) fun vs =>
        ∃ ts us, vs = ts ++ us ∧ SpellsType element ts ∧ SpellsBound b us := by
    refine (first p _ (delimited_bound b)).bind fun ts spelled => ?_
    exact (scans_bound bound (.cons (by decide))).imp fun us bound => ⟨ts, us, rfl, spelled, bound⟩
  rw [text]
  refine (scans_template word args).imp ?_
  rintro _ ⟨head, less, greater, _, rfl, kind, angles, ts, us, rfl, spelled, bound⟩
  exact .listing template kind angles spelled bound

theorem scans_map {key value : TypeSpec} {b : Option ConstExpr}
    (first : ∀ p after, Delimited after → Scans p key.text.toList after (SpellsType key))
    (second : ∀ p after, Delimited after → Scans p value.text.toList after (SpellsType value))
    (bound : ∀ e ∈ b, e.Printable) :
    Scans p (TypeSpec.map key value b).text.toList after (SpellsType (.map key value b)) := by
  have text : (TypeSpec.map key value b).text.toList =
      Keyword.map.text.toList ++ (Punct.less.text.toList ++
        ((key.text.toList ++ (Punct.comma.text.toList ++ ([' '] ++
          (value.text.toList ++ (Printer.bound b).toList)))) ++ Punct.greater.text.toList)) := by
    simp [TypeSpec.text, Printer.typeSpec, Punct.text, Keyword.text]
  have args (p : Place) : Scans p (key.text.toList ++ (Punct.comma.text.toList ++ ([' '] ++
      (value.text.toList ++ (Printer.bound b).toList)))) (Punct.greater.text.toList ++ after)
      fun ws => ∃ ts comma us vs, ws = ts ++ comma :: (us ++ vs) ∧ SpellsType key ts ∧
        comma.kind = .punct .comma ∧ SpellsType value us ∧ SpellsBound b vs := by
    refine (first p _ (.cons (by decide))).bind fun ts spelled => ?_
    refine (Scanned.plainMark .comma (by decide) _ _).bind ?_
    refine (Scanned.blank _ _).bind ?_
    refine (second _ _ (delimited_bound b)).bind fun us spelled' => ?_
    exact (scans_bound bound (.cons (by decide))).imp fun vs bound =>
      ⟨ts, _, us, vs, rfl, spelled, rfl, spelled', bound⟩
  rw [text]
  refine (scans_template .map args).imp ?_
  rintro _ ⟨head, less, greater, _, rfl, kind, angles, ts, comma, us, vs, rfl, spelled, separates,
    spelled', bound⟩
  exact .map kind angles spelled separates spelled' bound

/-- A template of a bound alone. -/
theorem scans_texts {word : Keyword} {make : Option ConstExpr → TypeSpec} {b : Option ConstExpr}
    (template : Texts word make) (bound : ∀ e ∈ b, e.Printable) (delimited : Delimited after) :
    Scans p (make b).text.toList after (SpellsType (make b)) := by
  have text : (make b).text.toList = word.text.toList ++ (Printer.stringBound b).toList := by
    cases template <;> simp [TypeSpec.text, Printer.typeSpec, Keyword.text]
  have apart : Delimited ((Printer.stringBound b).toList ++ after) := by
    cases b with
    | none => exact delimited
    | some e =>
      rw [Printer.stringBound, String.toList_append, String.toList_append]
      exact .cons (by decide)
  rw [text]
  refine (Scanned.keyword word apart).bind ?_
  exact (scans_stringBound bound).imp fun ts bound => .texts template rfl bound

theorem scans_fixed {digits scale : ConstExpr} (first : digits.Printable)
    (second : scale.Printable) : Scans p (TypeSpec.fixed (some (digits, scale))).text.toList after
      (SpellsType (.fixed (some (digits, scale)))) := by
  have text : (TypeSpec.fixed (some (digits, scale))).text.toList =
      Keyword.fixed.text.toList ++ (Punct.less.text.toList ++
        ((digits.text.toList ++ (Punct.comma.text.toList ++ ([' '] ++ scale.text.toList))) ++
          Punct.greater.text.toList)) := by
    simp [TypeSpec.text, Printer.typeSpec, Punct.text, Keyword.text]
  have args (p : Place) : Scans p (digits.text.toList ++ (Punct.comma.text.toList ++ ([' '] ++
      scale.text.toList))) (Punct.greater.text.toList ++ after)
      fun vs => ∃ ts comma us, vs = ts ++ comma :: us ∧ Renders 6 digits ts ∧
        comma.kind = .punct .comma ∧ Renders 6 scale us := by
    refine (first.scans p (.cons (by decide))).bind fun ts value => ?_
    refine (Scanned.plainMark .comma (by decide) _ _).bind ?_
    refine (Scanned.blank _ _).bind ?_
    exact (second.scans _ (.cons (by decide))).imp fun us value' =>
      ⟨ts, _, us, rfl, value, rfl, value'⟩
  rw [text]
  refine (scans_template .fixed args).imp ?_
  rintro _ ⟨head, less, greater, _, rfl, kind, angles, ts, comma, us, rfl, value, separates, value'⟩
  exact .fixed kind angles value separates value'

end Grammar

open Grammar in
/-- The text of a type is scanned into tokens that spell it. -/
theorem TypeSpec.Printable.scans {t : TypeSpec} (printable : t.Printable) (p : Place)
    {after : List Char} (delimited : Delimited after) :
    Scans p t.text.toList after (SpellsType t) := by
  induction printable generalizing p after with
  | @primitive k => exact scans_primitive k delimited
  | named idents => exact (scans_name idents delimited).imp fun ts => .named
  | sequence _ bound ih => exact scans_listing .sequence (fun p _ => ih p) bound
  | set _ bound ih => exact scans_listing .set (fun p _ => ih p) bound
  | map _ _ bound ih ih' => exact scans_map (fun p _ => ih p) (fun p _ => ih' p) bound
  | string bound => exact scans_texts .string bound delimited
  | wstring bound => exact scans_texts .wstring bound delimited
  | anyFixed => exact (Scanned.keyword .fixed delimited).scans (.anyFixed rfl)
  | fixed first second => exact scans_fixed first second

namespace Grammar

/-! Typedefs. -/

/-- The tokens of a typedef. -/
inductive SpellsAlias (name : String) (t : TypeSpec) : List Token → Prop
  | intro {word ident semi : Token} {ts : List Token} (word_kind : word.kind = .keyword .typeDef)
    (type : SpellsType t ts) (names : Names ident ⟨name, .empty⟩)
    (semi_kind : semi.kind = .punct .semi) :
    SpellsAlias name t (word :: (ts ++ [ident, semi]))

section

variable {l : Level} {s : Cursor} {t : Token} {ts rest : List Token}

/-- A name without dimensions. -/
theorem accepts_declarators {i : Ident} {semi : Token} (names : Names t i)
    (semi_kind : semi.kind = .punct .semi) (next : s.rest = t :: semi :: rest) :
    Accepts (declarators l) s [t] fun ds => ∃ j, ds = [⟨j, []⟩] ∧ j.name = i.name := by
  have apart {s : Cursor} {mark : Punct} (next : s.rest = semi :: rest) (other : mark ≠ .semi) :
      s.at? mark = false := by
    rw [Bool.eq_false_iff, ne_eq, Cursor.at?_iff, Cursor.kind_of_rest next, semi_kind]
    simpa using other.symm
  have declarator : Accepts (declarator l) s [t] fun d => ∃ j, d = ⟨j, []⟩ ∧ j.name = i.name := by
    refine (accepts_ident next names).bindPure fun j s passed same => ?_
    have next := passed.left next
    refine (accepts_none (by simp [apart next])).bindPure fun dims _ _ none => ?_
    rw [none]
    exact .pure ⟨j, rfl, by simpa [Ident.unplaced] using same⟩
  refine declarator.bindPure fun d s passed same => ?_
  have next := passed.left next
  refine (accepts_none (by simp [apart next])).bindPure fun ds _ _ none => ?_
  obtain ⟨j, rfl, same⟩ := same
  rw [none]
  exact .pure ⟨j, rfl, same⟩

theorem definitionKind_of_typedef {inner : Inner} (kind : s.kind = .keyword .typeDef) :
    definitionKind l inner s = (do return DefinitionKind.typedef (← typedefDecl l)) s := by
  rw [definitionKind, bind_apply]
  simp only [Grammar.kind, kind]

/-- A typedef is read from its tokens if the limit leaves room for its type. -/
theorem accepts_definition_of_typedef {name : String} {t : TypeSpec} {limit left : Nat}
    (spelled : SpellsAlias name t ts) (next : s.rest = ts) (room : ts.length ≤ left + 3) :
    Accepts (definitionAt limit (left + 1)) s ts (Definition.IsTypedef name t) := by
  obtain @⟨word, ident, semi, ts, word_kind, type, names, semi_kind⟩ := spelled
  let l : Level := ⟨limit, left, false⟩
  have whole : ts ++ [ident, semi] = ts ++ [ident] ++ [semi] := by simp
  have room : ts.length ≤ left := by
    simp only [List.length_cons, List.length_append, List.length_nil] at room
    omega
  have kind (s : Cursor) (next : s.rest = word :: (ts ++ [ident] ++ [semi])) :
      Accepts (definitionKind l ⟨definitionAt limit left, exportAt limit left⟩) s
        (word :: (ts ++ [ident])) fun k => ∃ type i, k = .typedef ⟨type, [⟨i, []⟩]⟩ ∧
          i.name = name ∧ type.unplaced = t.unplaced := by
    refine Accepts.congr ?_ (definitionKind_of_typedef ((Cursor.kind_of_rest next).trans word_kind))
    have decl : Accepts (typedefDecl l) s (word :: (ts ++ [ident])) fun decl =>
        ∃ type i, decl = ⟨type, [⟨i, []⟩]⟩ ∧ i.name = name ∧ type.unplaced = t.unplaced := by
      refine (accepts_expectKeyword next word_kind).discard.bind fun _ s passed _ => ?_
      have next : s.rest = ts ++ ident :: [semi] := by simpa using passed.left next
      have follows : FollowsType (ident :: [semi]) := by
        simpa [FollowsType] using .inl names.kind
      refine (accepts_typeSpec type room next follows).bind fun type s passed same => ?_
      refine (accepts_declarators names semi_kind (passed.left next)).bindPure
        fun ds _ _ single => .pure ?_
      obtain ⟨i, rfl, named⟩ := single
      exact ⟨type, i, rfl, named, same⟩
    refine decl.bindPure fun decl _ _ built => .pure ?_
    obtain ⟨type, i, rfl, holds⟩ := built
    exact ⟨type, i, rfl, holds⟩
  rw [whole] at next ⊢
  exact accepts_definitionWith word_kind next semi_kind kind

end

end Grammar

/-- The text of a typedef. -/
def typedefText (t : TypeSpec) : String := "typedef " ++ t.text ++ " X;"

open Grammar in
theorem scans_typedefText {t : TypeSpec} (printable : t.Printable) (p : Place) :
    Scans p (typedefText t).toList [] (SpellsAlias "X" t) := by
  have text : (typedefText t).toList = Keyword.typeDef.text.toList ++ ([' '] ++
      (t.text.toList ++ ([' '] ++ ("X".toList ++ Punct.semi.text.toList)))) := by
    simp [typedefText, Keyword.text, Punct.text]
  have ident : IsIdent "X" := ⟨⟨'X', [], rfl, by decide, by simp⟩, by decide⟩
  rw [text]
  refine (Scanned.keyword .typeDef (.cons (by decide))).bind ?_
  refine (Scanned.blank _ _).bind ?_
  refine (printable.scans _ (.cons (by decide))).bind fun ts type => ?_
  refine (Scanned.blank _ _).bind ?_
  refine (Scanned.ident ident (.cons (by decide))).bind ?_
  refine (Scanned.plainMark .semi (by decide) _ _).scans ?_
  exact .intro rfl type ⟨rfl, rfl⟩ rfl

open Grammar in
/-- Printing a type and reading it again gives the type back, up to places: each closing angle ends
a template, and each shift is one. -/
theorem parseText_of_typedefText {t : TypeSpec} (printable : t.Printable) {limit : Nat}
    (room : (typedefText t).length ≤ limit) :
    (parseText limit (typedefText t)).diagnostics = [] ∧
      ∃ d, (parseText limit (typedefText t)).specification = ⟨[], [d]⟩ ∧ d.IsTypedef "X" t := by
  obtain ⟨ts, scanned, spelled⟩ := scans_typedefText printable Place.start
  have few : ts.length ≤ limit := by
    have few := scanned.few
    rw [String.length_toList] at few
    exact Nat.le_trans few room
  have some : ts ≠ [] := by cases spelled; simp
  have noImport : ∀ t ∈ ts.head?, t.kind ≠ .keyword .importKw := by
    obtain ⟨word_kind, -, -, -⟩ := spelled
    simp [word_kind]
  refine parseText_of_scanned scanned some noImport fun s next => ?_
  obtain ⟨left, rfl⟩ := left_eq few some
  exact accepts_definition_of_typedef spelled next (by omega)

/-- The type `map<A, sequence<set<unsigned long, (A >> 0x2)>>>`, with a shift between angles that
close. -/
def nestedTemplates : TypeSpec :=
  let a : ScopedName := ⟨false, ⟨"A", .empty⟩, [], .empty⟩
  let two := ConstExpr.literal (.integer 2 .hex) .empty none
  let shift := ConstExpr.binary .shr (.name a .empty none) two .empty none
  .map (.named ⟨a, none⟩) (.sequence (.set (.primitive .ulong) (some shift)) none) none

theorem parseText_of_nestedTemplates :
    nestedTemplates.Printable ∧ (typedefText nestedTemplates).length ≤ 72 ∧
      (parseText 72 (typedefText nestedTemplates)).diagnostics = [] ∧
      ∃ d, (parseText 72 (typedefText nestedTemplates)).specification = ⟨[], [d]⟩ ∧
        d.IsTypedef "X" nestedTemplates := by
  have ident : IsIdent "A" := ⟨⟨'A', [], rfl, by decide, by simp⟩, by decide⟩
  have idents : ∀ i ∈ ScopedName.segments ⟨false, ⟨"A", .empty⟩, [], .empty⟩, IsIdent i.name := by
    simpa [ScopedName.segments] using ident
  have two : Literal.Printable (.integer 2 .hex) := show 2 < UInt64.size by decide
  have printable : nestedTemplates.Printable := by
    refine .map (.named idents) (.sequence (.set .primitive ?_) (by simp)) (by simp)
    rintro e ⟨⟩
    exact .binary (.name idents) (.literal two)
  have room : (typedefText nestedTemplates).length ≤ 72 := by decide
  exact ⟨printable, room, parseText_of_typedefText printable room⟩

end Idl
