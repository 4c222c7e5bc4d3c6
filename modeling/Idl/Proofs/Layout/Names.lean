import Idl.Proofs.Grammar.Named
import Idl.Proofs.Layout.Clean
import Idl.Proofs.Layout.Read
import Idl.Proofs.Scope.Names
import Mathlib

/-!
Names in a document without errors: a qualified name leads to its own symbol alone, no entry of the
model takes the place of another, and each entry is found by its name. Main statement:
`names_identify`.
-/

set_option autoImplicit false

namespace Idl

namespace TypeModel

variable {m : TypeModel}

theorem get?_eq_none_iff {id : SymbolId} : m.get? id = none ↔ id ∉ m.entries.map (·.id) := by
  simp [get?]

/-- Entries of symbols that have none yet are put behind the others. -/
theorem entries_foldl_insert {es : List Entry}
    (apart : (m.entries.map (·.id) ++ es.map (·.id)).Nodup) :
    (es.foldl insert m).entries = m.entries ++ es := by
  induction es generalizing m with
  | nil => simp
  | cons e es ih =>
    have free : m.get? e.id = none := by
      rw [get?_eq_none_iff]
      intro mem
      exact (List.nodup_append.mp apart).2.2 _ mem _ (by simp) rfl
    have inserted : m.insert e = ⟨m.entries ++ [e]⟩ := by
      rw [insert, free]
      rfl
    rw [List.foldl_cons, inserted, ih]
    · simp
    · simpa using apart

theorem get?_foldl_insert_eq_none {before after : List Entry} {e : Entry}
    (apart : (before.map (·.id) ++ e.id :: after.map (·.id)).Nodup) :
    (before.foldl insert empty).get? e.id = none := by
  have built : (before.foldl insert empty).entries = before :=
    entries_foldl_insert (m := empty) (List.Nodup.of_append_left apart)
  rw [get?_eq_none_iff, built]
  intro mem
  exact (List.nodup_append.mp apart).2.2 _ mem _ List.mem_cons_self rfl

/-- The entry of a name that no other entry has. -/
theorem named?_eq_some {e : Entry} (mem : e ∈ m.entries)
    (alone : ∀ other ∈ m.entries, other.name = e.name → other = e) {name : String}
    (same : String.ofList (Text.dropColons name.toList) = e.name) : m.named? name = some e := by
  have found : (m.entries.find? (·.name == e.name)).isSome = true :=
    List.find?_isSome.mpr ⟨e, mem, by simp⟩
  obtain ⟨other, found⟩ := Option.isSome_iff_exists.mp found
  have called : other.name = e.name := by simpa using List.find?_some found
  rw [named?, same, found, alone other (List.mem_of_find?_eq_some found) called]

end TypeModel

namespace Clean

open Layout

variable {parsed s : Specification} {t : SymbolTable}

/-- No two inserted entries are of one symbol. -/
theorem nodup_entryIds (clean : Clean parsed s t) : (s.entryIds t).Nodup := by
  have laid : s.laid.Nodup := (List.Nodup.of_append_left clean.nodup_offsets).of_map _
  have settled {x : Laid} {id : SymbolId} (entered : entryId? t x = some id) :
      t.settledAt? x.name = some id := (entryId?_eq_some_iff.mp entered).1
  refine List.nodup_append.mpr ⟨?_, t.nodup_danglingForwards, ?_⟩
  · refine List.pairwise_filterMap.mpr (laid.imp_of_mem fun {x y} mem mem' other => ?_)
    rintro id entered _ entered' rfl
    exact other (clean.eq_of_settledAt? mem mem' (settled entered) (settled entered'))
  · rintro id mem _ mem' rfl
    obtain ⟨x, -, entered⟩ := List.mem_filterMap.mp mem
    obtain ⟨f, dangling, same⟩ := List.mem_map.mp mem'
    have forward := (t.mem_danglingForwards id).mp ⟨f, dangling, same⟩
    rw [(SymbolTable.settledAt?_eq_some_iff.mp (settled entered)).2] at forward
    cases forward

theorem lt_size_of_mem (clean : Clean parsed s t) {e : Entry}
    (mem : e ∈ (buildModel s t).entries) : e.id < t.size := by
  rcases describes_of_mem mem with ⟨x, inside, entry⟩ | ⟨forward, -⟩
  · obtain ⟨id, defines⟩ := clean.entered.defined x.name x.kind (clean.declared inside)
    have place := (SymbolTable.settledAt?_eq_some_iff.mp entry.place).1
    rw [defines.place, Option.some_inj] at place
    exact place ▸ defines.used
  · exact t.lt_size_of_isForward forward

/-- Entries are told apart by their names. -/
theorem eq_of_name (clean : Clean parsed s t) (rooted : Rooted t) {e other : Entry}
    (mem : e ∈ (buildModel s t).entries) (mem' : other ∈ (buildModel s t).entries)
    (same : other.name = e.name) : other = e := by
  rw [name_of_mem mem, name_of_mem mem'] at same
  have ids := rooted.qualifiedName_injective (clean.lt_size_of_mem mem')
    (clean.lt_size_of_mem mem) same
  obtain ⟨es, built, perm⟩ := inserted_buildModel s t
  have distinct : (es.map (·.id)).Nodup := perm.nodup_iff.mpr clean.nodup_entryIds
  have entries : (buildModel s t).entries = es := by
    rw [built, TypeModel.entries_foldl_insert (by simpa [TypeModel.empty] using distinct)]
    rfl
  rw [entries] at mem mem'
  exact List.inj_on_of_nodup_map distinct mem' mem ids

end Clean

/-- The name of a symbol as its parts, which may be none. -/
theorem Rooted.joined_pathNames {t : SymbolTable} (rooted : Rooted t) {id : SymbolId}
    (inside : id < t.size) :
    "::".intercalate (((Text.splitSlashes ("/".intercalate
      (Text.pathNames (t.qualifiedName id))).toList).filter (!·.isEmpty)).map String.ofList) =
      t.qualifiedName id := by
  rcases Nat.eq_zero_or_pos id with rfl | large
  · have empty : t.qualifiedName 0 = "" := by
      rw [SymbolTable.qualifiedName_eq]
      exact congrArg _ rooted.path_root
    rw [empty]
    rfl
  · rw [rooted.pathNames_qualifiedName large inside,
      Text.splitSlashes_words (rooted.path_ne_nil large inside) (rooted.words_path inside),
      SymbolTable.qualifiedName_eq]

namespace Document

/-- All names of a document without errors lead to their symbols. -/
theorem rooted_of_unfailed {options : ParseOptions} {text : String}
    (ok : (ofText options text).hasErrors = false) : Rooted (ofText options text).symbols := by
  have placed := wellPlaced_parseText options.maxNesting text
  have formed := (Grammar.found_parseTokens options.maxNesting (tokenize text).tokens
    (fine_tokenize text)).good
  have unfailed := unfailed_of_severity (severity_ne_error ok)
  have entered := entered_buildScopes _ placed.apart
  obtain ⟨same, -⟩ := bound_of_bindUnit entered placed.apart unfailed.errors
  have redeclared := (clean_ofText placed ok).quiet
  have symbols : (ofText options text).symbols = (bindUnit
      (parseText options.maxNesting text).specification
      (buildScopes (parseText options.maxNesting text).specification).table).table := rfl
  rw [symbols] at redeclared ⊢
  rw [same.redeclarations] at redeclared
  exact (rooted_buildScopes formed.named ⟨redeclared, unfailed.mismatches⟩).congr same

/-- A qualified name leads to its own symbol, from any scope, and to no other. Each declaration
with a layout and each awaited type has its own entry, put into the model where none of its symbol
is, and found by its name. -/
theorem names_identify (options : ParseOptions) (text : String)
    (ok : (ofText options text).hasErrors = false) :
    (∀ id, 0 < id → id < (ofText options text).symbols.size →
      (ofText options text).symbols.resolveText?
          ((ofText options text).symbols.qualifiedName id) = some id ∧
        ∀ scope name, name.absolute = true →
          name.path = Text.pathNames ((ofText options text).symbols.qualifiedName id) →
          (ofText options text).symbols.resolve scope name = .ok id) ∧
    (∀ id other, id < (ofText options text).symbols.size →
      other < (ofText options text).symbols.size →
      (ofText options text).symbols.qualifiedName id =
        (ofText options text).symbols.qualifiedName other → id = other) ∧
    (∃ es : List Entry, (ofText options text).model = es.foldl TypeModel.insert .empty ∧
      (es.map (·.id)).Perm
        ((ofText options text).specification.entryIds (ofText options text).symbols) ∧
      ∀ before e after, es = before ++ e :: after →
        (before.foldl TypeModel.insert .empty).get? e.id = none) ∧
    ∀ e ∈ (ofText options text).model.entries,
      (ofText options text).model.named? e.name = some e ∧
      (ofText options text).model.named? ("::" ++ e.name) = some e ∧
      typeEntry? (ofText options text) ("/".intercalate (Text.pathNames e.name)) = some e := by
  have rooted := rooted_of_unfailed ok
  have clean := clean_ofText (wellPlaced_parseText _ _) ok
  refine ⟨fun id large inside => ?_, fun id other inside inside' =>
    rooted.qualifiedName_injective inside inside', ?_, fun e mem => ?_⟩
  · refine ⟨rooted.resolveText?_qualifiedName large inside, fun scope name absolute path => ?_⟩
    refine SymbolTable.resolve_absolute absolute ?_ scope
    rw [path, rooted.pathNames_qualifiedName large inside]
    exact rooted.resolvePath?_path inside
  · obtain ⟨es, built, perm⟩ := inserted_buildModel (ofText options text).specification
      (ofText options text).symbols
    refine ⟨es, built, perm, fun before e after split => ?_⟩
    have distinct : (es.map (·.id)).Nodup := perm.nodup_iff.mpr clean.nodup_entryIds
    rw [split, List.map_append, List.map_cons] at distinct
    exact TypeModel.get?_foldl_insert_eq_none distinct
  · have alone (other : Entry) (mem' : other ∈ (ofText options text).model.entries)
        (same : other.name = e.name) : other = e := clean.eq_of_name rooted mem mem' same
    have name : e.name = (ofText options text).symbols.qualifiedName e.id := name_of_mem mem
    have inside := clean.lt_size_of_mem mem
    have bare : String.ofList (Text.dropColons e.name.toList) = e.name := by
      rw [name, SymbolTable.qualifiedName_eq,
        Text.dropColons_intercalate (rooted.words_path inside), String.ofList_toList]
    have led : Text.dropColons ("::" ++ e.name).toList = Text.dropColons e.name.toList := by
      rw [String.toList_append]
      rfl
    refine ⟨TypeModel.named?_eq_some mem alone bare,
      TypeModel.named?_eq_some mem alone (led ▸ bare), ?_⟩
    rw [ typeEntry?, name, rooted.joined_pathNames inside, ← name]
    exact TypeModel.named?_eq_some mem alone bare

theorem names_identify_of_module :
    (ofText {} "module M { enum E { A }; struct S { E e; }; };").hasErrors = false ∧
      (ofText {} "module M { enum E { A }; struct S { E e; }; };").symbols.resolveText? "M::E::A" =
        some 3 := by
  have ok : (ofText {} "module M { enum E { A }; struct S { E e; }; };").hasErrors = false := by
    decide +kernel
  have name : (ofText {} "module M { enum E { A }; struct S { E e; }; };").symbols.qualifiedName 3 =
      "M::E::A" := by decide +kernel
  refine ⟨ok, ?_⟩
  rw [← name]
  exact ((names_identify {} _ ok).1 3 (by decide) (by decide +kernel)).1

end Document

end Idl
