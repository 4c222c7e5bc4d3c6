import Idl.Layout.Build
import Idl.Proofs.Layout.Laid
import Idl.Proofs.Scope.Table

/-!
The entries of a model and the declarations they come from: each entry describes a declaration that
has a layout, and each such declaration has an entry. Main statements: `describes_of_mem` and
`get?_buildModel_isSome`.
-/

set_option autoImplicit false

namespace Idl

/-- The symbol that a name defines, unless the symbol only awaits its definition. -/
def SymbolTable.settledAt? (t : SymbolTable) (name : Ident) : Option SymbolId :=
  (t.definedAt? name.span).filter fun id => !(t.symbol id).isForward

theorem SymbolTable.settledAt?_eq_some_iff {t : SymbolTable} {name : Ident} {id : SymbolId} :
    t.settledAt? name = some id ↔
      t.definedAt? name.span = some id ∧ (t.symbol id).isForward = false := by
  simp [settledAt?, Option.filter_eq_some_iff]

namespace Layout

/-- The layout of a type over a finished table. -/
def typeOf (t : SymbolTable) : TypeSpec → LayoutType
  | .primitive k => .primitive k
  | .named type =>
    match type.target with
    | some id => .named id
    | none => .unresolved type.name.text
  | .sequence element bound => .sequence (typeOf t element) (bound.map size)
  | .set element bound => .set (typeOf t element) (bound.map size)
  | .map key value bound => .map (typeOf t key) (typeOf t value) (bound.map size)
  | .string bound => .string (bound.map size)
  | .wstring bound => .wstring (bound.map size)
  | .fixed none => .fixed 0 0
  | .fixed (some (digits, scale)) => .fixed (wordSize digits) (wordSize scale)
  | .struct s => reference s.name (t.settledAt? s.name)
  | .union u => reference u.name (t.settledAt? u.name)
  | .enum e => reference e.name (t.settledAt? e.name)
  | .bitset s => reference s.name (t.settledAt? s.name)
  | .bitmask s => reference s.name (t.settledAt? s.name)

def fieldsOf (t : SymbolTable) (ms : List (Member TypeSpec)) : List Field :=
  ms.flatMap fun m => m.declarators.map (field m.annotations (typeOf t m.type))

def caseOf (t : SymbolTable) (c : UnionCase TypeSpec) : CaseLayout :=
  ⟨labels c.labels, c.isDefault, field c.annotations (typeOf t c.type) c.declarator⟩

/-- The entry kind is the layout of the declaration. Only the offsets in a bitset depend on what
was laid out before. -/
def Describes (t : SymbolTable) : Laid → EntryKind → Prop
  | .struct s, kind => kind = .struct ⟨s.base.bind (·.target), fieldsOf t s.members⟩
  | .union u, kind => kind = .union ⟨typeOf t u.discriminant.type, u.cases.map (caseOf t)⟩
  | .enum as e, kind => kind = .enum ⟨bitBound as, e.enumerators.map (·.name.name)⟩
  | .bitset s, kind => ∃ offset,
    kind = .bitset ⟨s.base.bind (·.target), (bitfields offset s.bitfields).1,
      (bitfields offset s.bitfields).2⟩
  | .bitmask as s, kind => kind = .bitmask ⟨bitBound as, flags s.values⟩
  | .typedef type d, kind => kind = .typedef ⟨typeOf t type, dims d⟩
  | .const d, kind => ∃ c, d.value.value = some c ∧ kind = .const c
  | .exception d, kind => kind = .exception ⟨none, fieldsOf t d.members⟩
  | .native _, kind => kind = .native
  | .closed _ _, kind => ∃ noun, kind = .sealed noun

/-- Only a bitset has the layout of one. -/
theorem Describes.bitset {t : SymbolTable} {x : Laid} {layout : BitsetLayout}
    (describes : Describes t x (.bitset layout)) : ∃ b, x = .bitset b := by
  cases x with
  | bitset b => exact ⟨b, rfl⟩
  | const _ => obtain ⟨_, _, eq⟩ := describes; cases eq
  | closed _ _ => obtain ⟨_, eq⟩ := describes; cases eq
  | _ => cases describes

/-- Only a typedef has the layout of one. -/
theorem Describes.typedef {t : SymbolTable} {x : Laid} {layout : AliasLayout}
    (describes : Describes t x (.typedef layout)) :
    ∃ type d, x = .typedef type d ∧ layout = ⟨typeOf t type, dims d⟩ := by
  cases x with
  | typedef type d => exact ⟨type, d, rfl, EntryKind.typedef.inj describes⟩
  | bitset _ => obtain ⟨_, eq⟩ := describes; cases eq
  | const _ => obtain ⟨_, _, eq⟩ := describes; cases eq
  | closed _ _ => obtain ⟨_, eq⟩ := describes; cases eq
  | _ => cases describes

/-- The entry is the one of the declaration. -/
structure EntryOf (t : SymbolTable) (x : Laid) (e : Entry) : Prop where
  place : t.settledAt? x.name = some e.id
  describes : Describes t x e.kind
  name : e.name = t.qualifiedName e.id

/-- The symbol whose entry describes a declaration. A constant without a value has none. -/
def entryId? (t : SymbolTable) : Laid → Option SymbolId
  | .const d => d.value.value.bind fun _ => t.settledAt? d.name
  | x => t.settledAt? x.name

theorem entryId?_eq_some_iff {t : SymbolTable} {x : Laid} {id : SymbolId} :
    entryId? t x = some id ↔ t.settledAt? x.name = some id ∧ ∃ kind, Describes t x kind := by
  cases x with
  | const d =>
    have described : (∃ kind, Describes t (.const d) kind) ↔ ∃ c, d.value.value = some c :=
      ⟨fun ⟨_, c, value, _⟩ => ⟨c, value⟩, fun ⟨c, value⟩ => ⟨_, c, value, rfl⟩⟩
    rw [described, entryId?, Option.bind_eq_some_iff, Laid.name, and_comm, exists_and_right]
  | bitset s => simp [entryId?, Laid.name, Describes]
  | closed name kind => simp [entryId?, Laid.name, Describes]
  | _ => simp [entryId?, Laid.name, Describes]

/-- The layout of a bitset whose base has the bits that a model tells. -/
def bitsetKind (m : TypeModel) (b : BitsetType) : EntryKind :=
  let base := b.base.bind (·.target)
  let offset := inheritedBits m base
  .bitset ⟨base, (bitfields offset b.bitfields).1, (bitfields offset b.bitfields).2⟩

/-- The entry is the one that the declaration gets over a model. -/
structure EntersAs (t : SymbolTable) (m : TypeModel) (x : Laid) (e : Entry) : Prop extends
    EntryOf t x e where
  bits : ∀ b, x = .bitset b → e.kind = bitsetKind m b

/-- The declarations get their entries one after the other, each over the model that those before
it have left. -/
inductive Enters (t : SymbolTable) : TypeModel → List Laid → TypeModel → Prop
  | nil (m : TypeModel) : Enters t m [] m
  | skip {m m' : TypeModel} {x : Laid} {xs : List Laid} (unentered : entryId? t x = none)
      (rest : Enters t m xs m') : Enters t m (x :: xs) m'
  | insert {m m' : TypeModel} {x : Laid} {xs : List Laid} {e : Entry} (entry : EntersAs t m x e)
      (rest : Enters t (m.insert e) xs m') : Enters t m (x :: xs) m'

/-- The same declarations, and the bitsets among them in the same order. -/
structure Reordered (xs ys : List Laid) : Prop where
  perm : xs.Perm ys
  bitsets : xs.filterMap Laid.bitset? = ys.filterMap Laid.bitset?

/-- A model gets the entries of the declarations `xs`, and no other. What stands in a type comes
before the type. -/
def Grows (t : SymbolTable) (m m' : TypeModel) (xs : List Laid) : Prop :=
  ∃ zs, Reordered zs xs ∧ Enters t m zs m'

end Layout

namespace TypeModel

theorem id_of_get? {m : TypeModel} {id : SymbolId} {e : Entry} (found : m.get? id = some e) :
    e.id = id := by
  simpa using List.find?_some found

theorem mem_of_get? {m : TypeModel} {id : SymbolId} {e : Entry} (found : m.get? id = some e) :
    e ∈ m.entries := List.mem_of_find?_eq_some found

theorem get?_isSome_iff (m : TypeModel) (id : SymbolId) :
    (m.get? id).isSome = true ↔ ∃ e ∈ m.entries, e.id = id := by
  simp [get?]

theorem mem_insert {m : TypeModel} {new e : Entry} (mem : e ∈ (m.insert new).entries) :
    e ∈ m.entries ∨ e = new := by
  rw [insert] at mem
  split at mem
  · obtain ⟨old, inside, eq⟩ := List.mem_map.mp mem
    split at eq
    · exact .inr eq.symm
    · exact .inl (eq ▸ inside)
  · simpa using mem

/-- An entry is there once it was inserted, whatever else is. -/
theorem get?_insert_isSome_iff (m : TypeModel) (new : Entry) (id : SymbolId) :
    ((m.insert new).get? id).isSome = true ↔ (m.get? id).isSome = true ∨ new.id = id := by
  rw [insert]
  split
  · next known =>
    simp only [get?_isSome_iff, List.mem_map] at known ⊢
    constructor
    · rintro ⟨e, ⟨old, inside, rfl⟩, same⟩
      split at same
      · exact .inr same
      · exact .inl ⟨old, inside, same⟩
    · rintro (⟨old, inside, same⟩ | same)
      · refine ⟨_, ⟨old, inside, rfl⟩, ?_⟩
        split
        · next equal => rw [← same]; exact (beq_iff_eq.mp equal).symm
        · exact same
      · obtain ⟨old, inside, equal⟩ := known
        exact ⟨_, ⟨old, inside, rfl⟩, by simp [equal, same]⟩
  · simp only [get?_isSome_iff, List.mem_append, List.mem_singleton]
    constructor
    · rintro ⟨e, inside | rfl, same⟩
      · exact .inl ⟨e, inside, same⟩
      · exact .inr same
    · rintro (⟨e, inside, same⟩ | same)
      · exact ⟨e, .inl inside, same⟩
      · exact ⟨new, .inr rfl, same⟩

end TypeModel

namespace Layout

variable {t : SymbolTable} {xs ys : List Laid}

namespace Enters

variable {m m' m'' : TypeModel}

theorem append (first : Enters t m xs m') (second : Enters t m' ys m'') :
    Enters t m (xs ++ ys) m'' := by
  induction first with
  | nil => exact second
  | skip unentered _ ih => exact .skip unentered (ih second)
  | insert entry _ ih => exact .insert entry (ih second)

/-- The entries in the order in which they are put into the model, and what each was laid out
over. -/
theorem inserted (enters : Enters t m xs m') : ∃ es : List Entry,
    m' = es.foldl TypeModel.insert m ∧ es.map (·.id) = xs.filterMap (entryId? t) ∧
      ∀ front e back, es = front ++ e :: back →
        ∃ x ∈ xs, EntersAs t (front.foldl TypeModel.insert m) x e := by
  induction enters with
  | nil m => exact ⟨[], rfl, rfl, by simp⟩
  | @skip m m' x xs unentered _ ih =>
    obtain ⟨es, built, ids, origin⟩ := ih
    refine ⟨es, built, by rw [List.filterMap_cons, unentered, ids], fun front e back split => ?_⟩
    obtain ⟨y, mem, entry⟩ := origin front e back split
    exact ⟨y, List.mem_cons_of_mem x mem, entry⟩
  | @insert m m' x xs e entry _ ih =>
    obtain ⟨es, built, ids, origin⟩ := ih
    have id := entryId?_eq_some_iff.mpr ⟨entry.place, e.kind, entry.describes⟩
    refine ⟨e :: es, built, by rw [List.map_cons, List.filterMap_cons, id, ids], ?_⟩
    intro front new back split
    cases front with
    | nil =>
      obtain ⟨rfl, -⟩ := List.cons_eq_cons.mp split
      exact ⟨x, List.mem_cons_self, entry⟩
    | cons first front =>
      rw [List.cons_append] at split
      obtain ⟨rfl, behind⟩ := List.cons_eq_cons.mp split
      obtain ⟨y, mem, entry⟩ := origin front new back behind
      exact ⟨y, List.mem_cons_of_mem x mem, entry⟩

theorem sources (enters : Enters t m xs m') :
    ∀ e ∈ m'.entries, e ∈ m.entries ∨ ∃ x ∈ xs, EntryOf t x e := by
  induction enters with
  | nil m => exact fun e mem => .inl mem
  | skip _ _ ih =>
    intro e mem
    rcases ih e mem with mem | ⟨x, inside, entry⟩
    · exact .inl mem
    · exact .inr ⟨x, List.mem_cons_of_mem _ inside, entry⟩
  | @insert m m' x xs new entry _ ih =>
    intro e mem
    rcases ih e mem with mem | ⟨y, inside, entry'⟩
    · rcases TypeModel.mem_insert mem with mem | rfl
      · exact .inl mem
      · exact .inr ⟨x, List.mem_cons_self, entry.toEntryOf⟩
    · exact .inr ⟨y, List.mem_cons_of_mem _ inside, entry'⟩

theorem kept (enters : Enters t m xs m') {id : SymbolId} (known : (m.get? id).isSome = true) :
    (m'.get? id).isSome = true := by
  induction enters with
  | nil m => exact known
  | skip _ _ ih => exact ih known
  | @insert m m' x xs new entry _ ih =>
    exact ih ((m.get?_insert_isSome_iff new id).mpr (.inl known))

theorem entered (enters : Enters t m xs m') {x : Laid} (mem : x ∈ xs) {id : SymbolId}
    (found : entryId? t x = some id) : (m'.get? id).isSome = true := by
  induction enters with
  | nil m => cases mem
  | skip unentered _ ih =>
    rcases List.mem_cons.mp mem with rfl | mem
    · rw [found] at unentered
      cases unentered
    · exact ih mem
  | @insert m m' y xs new entry rest ih =>
    rcases List.mem_cons.mp mem with rfl | mem
    · have place := (entryId?_eq_some_iff.mp found).1
      rw [entry.place, Option.some_inj] at place
      exact rest.kept ((m.get?_insert_isSome_iff new id).mpr (.inr place))
    · exact ih mem

end Enters

theorem Reordered.refl (xs : List Laid) : Reordered xs xs := ⟨.refl _, rfl⟩

/-- What is laid out first stands behind what it is part of. -/
theorem reordered_last {x : Laid} (other : x.bitset? = none) (xs : List Laid) :
    Reordered (xs ++ [x]) (x :: xs) where
  perm := List.perm_append_comm
  bitsets := by simp [other]

namespace Grows

variable {m m' m'' : TypeModel}

theorem refl (m : TypeModel) : Grows t m m [] := ⟨[], .refl _, .nil m⟩

theorem trans (first : Grows t m m' xs) (second : Grows t m' m'' ys) :
    Grows t m m'' (xs ++ ys) := by
  obtain ⟨zs, order, enters⟩ := first
  obtain ⟨zs', order', enters'⟩ := second
  refine ⟨zs ++ zs', ⟨order.perm.append order'.perm, ?_⟩, enters.append enters'⟩
  rw [List.filterMap_append, List.filterMap_append, order.bitsets, order'.bitsets]

theorem reorder (grows : Grows t m m' xs) (order : Reordered xs ys) : Grows t m m' ys := by
  obtain ⟨zs, order', enters⟩ := grows
  exact ⟨zs, ⟨order'.perm.trans order.perm, order'.bitsets.trans order.bitsets⟩, enters⟩

/-- A declaration without an entry adds none. -/
theorem skip (m : TypeModel) (x : Laid) (unentered : entryId? t x = none) : Grows t m m [x] :=
  ⟨[x], .refl _, .skip unentered (.nil m)⟩

theorem insert (m : TypeModel) (x : Laid) (e : Entry) (entry : EntersAs t m x e) :
    Grows t m (m.insert e) [x] :=
  ⟨[x], .refl _, .insert entry (.nil _)⟩

end Grows

/-- A layout step returns `a` and adds the entries of `xs`, whatever the model. -/
def Lays (t : SymbolTable) {α : Type} (p : LayoutM α) (a : α) (xs : List Laid) : Prop :=
  ∀ m, ∃ m', (p.run t).run m = (a, m') ∧ Grows t m m' xs

namespace Lays

variable {α β : Type} {p : LayoutM α} {a : α} {k : α → LayoutM β} {b : β}

theorem pure (a : α) : Lays t (Pure.pure a) a [] := fun m => ⟨m, rfl, Grows.refl m⟩

theorem bind (first : Lays t p a xs) (second : Lays t (k a) b ys) :
    Lays t (p >>= k) b (xs ++ ys) := by
  intro m
  obtain ⟨m', run, grows⟩ := first m
  obtain ⟨m'', run', grows'⟩ := second m'
  refine ⟨m'', ?_, grows.trans grows'⟩
  simp only [ReaderT.run_bind, StateT.run_bind, run]
  exact run'

theorem map (f : α → β) (first : Lays t p a xs) : Lays t (f <$> p) (f a) xs := by
  intro m
  obtain ⟨m', run, grows⟩ := first m
  refine ⟨m', ?_, grows⟩
  simp only [ReaderT.run_map, StateT.run_map, run]
  rfl

theorem discard (first : Lays t p a xs) : Lays t (Functor.discard p) () xs := by
  have mapped := first.map (fun _ => PUnit.unit)
  exact mapped

theorem reorder (lays : Lays t p a xs) (order : Reordered xs ys) : Lays t p a ys := by
  intro m
  obtain ⟨m', run, grows⟩ := lays m
  exact ⟨m', run, grows.reorder order⟩

end Lays

theorem entryId?_eq_none {x : Laid} (unsettled : t.settledAt? x.name = none) :
    entryId? t x = none := by
  refine Option.eq_none_iff_forall_ne_some.mpr fun id found => ?_
  rw [(entryId?_eq_some_iff.mp found).1] at unsettled
  cases unsettled

theorem run_insert (t : SymbolTable) (name : Ident) (kind : EntryKind) (m : TypeModel) :
    ((insert name kind).run t).run m =
      match t.settledAt? name with
      | none => (none, m)
      | some id => (some id, m.insert ⟨id, t.qualifiedName id, kind⟩) := by
  have unfolded : ((insert name kind).run t).run m =
      ((match t.definedAt? name.span with
        | none => pure none
        | some id => do
          if (t.symbol id).isForward then return none
          modify (·.insert ⟨id, t.qualifiedName id, kind⟩)
          return some id : LayoutM (Option SymbolId)).run t).run m := rfl
  rw [unfolded, SymbolTable.settledAt?]
  cases t.definedAt? name.span with
  | none => rfl
  | some id =>
    cases forward : (t.symbol id).isForward with
    | true => simp only [Option.filter, forward]; rfl
    | false => simp only [Option.filter, forward]; rfl

/-- Over a model, a declaration gets an entry of the kind. -/
theorem grows_insert (x : Laid) (kind : EntryKind) (describes : Describes t x kind) (m : TypeModel)
    (bits : ∀ b, x = .bitset b → kind = bitsetKind m b) :
    ∃ m', ((insert x.name kind).run t).run m = (t.settledAt? x.name, m') ∧ Grows t m m' [x] := by
  rw [run_insert]
  cases place : t.settledAt? x.name with
  | none => exact ⟨m, rfl, .skip m x (entryId?_eq_none place)⟩
  | some id => exact ⟨_, rfl, .insert m x _ ⟨⟨place, describes, rfl⟩, bits⟩⟩

theorem lays_insert (x : Laid) (kind : EntryKind) (describes : Describes t x kind)
    (other : x.bitset? = none) : Lays t (insert x.name kind) (t.settledAt? x.name) [x] :=
  fun m => grows_insert x kind describes m fun b eq => by rw [eq] at other; cases other

theorem lays_bitsetType (s : BitsetType) :
    Lays t (bitsetType s) (t.settledAt? s.name) [.bitset s] := by
  intro m
  have laid := grows_insert (t := t) (.bitset s) (bitsetKind m s)
    ⟨inheritedBits m (s.base.bind (·.target)), rfl⟩ m fun b eq => by rw [Laid.bitset.inj eq]
  exact laid

mutual

theorem lays_typeSpec (t : SymbolTable) : (τ : TypeSpec) →
    Lays t (typeSpec τ) (typeOf t τ) τ.laid
  | .struct ⟨name, base, fields, span⟩ => by
    rw [typeSpec, typeOf, TypeSpec.laid]
    exact ((lays_members t fields).bind ((lays_insert (.struct ⟨name, base, fields, span⟩) _
      rfl rfl).map (reference name))).reorder (reordered_last rfl _)
  | .union ⟨name, ⟨as, type, switchSpan⟩, cases, span⟩ => by
    rw [typeSpec, typeOf, TypeSpec.laid]
    refine (((lays_typeSpec t type).bind ((lays_unionCases t cases).bind ((lays_insert
      (.union ⟨name, ⟨as, type, switchSpan⟩, cases, span⟩) _ rfl rfl).map
        (reference name))))).reorder ?_
    rw [← List.append_assoc]
    exact reordered_last rfl _
  | .enum e => by
    rw [typeSpec, typeOf, TypeSpec.laid]
    exact (lays_insert (.enum [] e) _ rfl rfl).map (reference e.name)
  | .bitset s => by
    rw [typeSpec, typeOf, TypeSpec.laid]
    exact (lays_bitsetType s).map (reference s.name)
  | .bitmask s => by
    rw [typeSpec, typeOf, TypeSpec.laid]
    exact (lays_insert (.bitmask [] s) _ rfl rfl).map (reference s.name)
  | .sequence element bound => by
    rw [typeSpec, typeOf, TypeSpec.laid]
    exact (lays_typeSpec t element).map fun layout => LayoutType.sequence layout (bound.map size)
  | .set element bound => by
    rw [typeSpec, typeOf, TypeSpec.laid]
    exact (lays_typeSpec t element).map fun layout => LayoutType.set layout (bound.map size)
  | .map key value bound => by
    rw [typeSpec, typeOf, TypeSpec.laid]
    exact (lays_typeSpec t key).bind ((lays_typeSpec t value).map fun layout =>
      LayoutType.map (typeOf t key) layout (bound.map size))
  | .primitive _ => by
    rw [typeSpec, typeOf, TypeSpec.laid]
    exact Lays.pure _
  | .named type => by
    rw [typeSpec, typeOf, TypeSpec.laid]
    cases type.target <;> exact Lays.pure _
  | .string _ => by
    rw [typeSpec, typeOf, TypeSpec.laid]
    exact Lays.pure _
  | .wstring _ => by
    rw [typeSpec, typeOf, TypeSpec.laid]
    exact Lays.pure _
  | .fixed none => by
    rw [typeSpec, typeOf, TypeSpec.laid]
    exact Lays.pure _
  | .fixed (some (_, _)) => by
    rw [typeSpec, typeOf, TypeSpec.laid]
    exact Lays.pure _

theorem lays_members (t : SymbolTable) : (ms : List (Member TypeSpec)) →
    Lays t (members ms) (fieldsOf t ms) (memberLaid ms)
  | [] => by
    rw [members, memberLaid]
    exact Lays.pure _
  | ⟨as, type, ds, span⟩ :: rest => by
    rw [members, memberLaid]
    exact (lays_typeSpec t type).bind ((lays_members t rest).map
      fun fields => ds.map (field as (typeOf t type)) ++ fields)

theorem lays_unionCases (t : SymbolTable) : (cs : List (UnionCase TypeSpec)) →
    Lays t (unionCases cs) (cs.map (caseOf t)) (caseLaid cs)
  | [] => by
    rw [unionCases, caseLaid]
    exact Lays.pure _
  | ⟨ls, as, type, d, span⟩ :: rest => by
    rw [unionCases, caseLaid]
    exact (lays_typeSpec t type).bind ((lays_unionCases t rest).map
      fun cases => caseOf t ⟨ls, as, type, d, span⟩ :: cases)

end

theorem lays_declarators (type : TypeSpec) (ds : List Declarator) :
    Lays t (ds.forM fun d => discard (insert d.name (.typedef ⟨typeOf t type, dims d⟩))) ()
      (ds.map (.typedef type)) := by
  induction ds with
  | nil => exact Lays.pure ()
  | cons d ds ih => exact (lays_insert (.typedef type d) _ rfl rfl).discard.bind ih

theorem lays_typedef (d : Typedef) :
    Lays t (typedef d) () (d.type.laid ++ d.declarators.map (.typedef d.type)) := by
  rw [typedef]
  exact (lays_typeSpec t d.type).bind (lays_declarators d.type d.declarators)

theorem lays_sealedEntry (name : Ident) (kind : SymbolKind) :
    Lays t (sealedEntry name) () [.closed name kind] := by
  intro m
  have unfolded : ((sealedEntry name).run t).run m =
      ((match t.definedAt? name.span with
        | some id => discard (insert name (.sealed (t.kind id).noun))
        | none => pure () : LayoutM Unit).run t).run m := rfl
  rw [unfolded]
  cases found : t.definedAt? name.span with
  | none =>
    have unsettled : t.settledAt? name = none := by simp [SymbolTable.settledAt?, found]
    exact ⟨m, rfl, Grows.skip m (.closed name kind) (entryId?_eq_none unsettled)⟩
  | some id => exact (lays_insert (.closed name kind) _ ⟨_, rfl⟩ rfl).discard m

theorem lays_const (d : ConstDecl) : Lays t (match d.value.value with
    | some constant => discard (insert d.name (.const constant))
    | none => pure ()) () [.const d] := by
  cases value : d.value.value with
  | some constant =>
    exact (lays_insert (.const d) (.const constant) ⟨constant, value, rfl⟩ rfl).discard
  | none =>
    -- a constant without a value has no description
    have unentered : entryId? t (.const d) = none := by rw [entryId?, value]; rfl
    exact fun m => ⟨m, rfl, Grows.skip m (.const d) unentered⟩

mutual

theorem lays_definition (t : SymbolTable) : (d : Definition) → Lays t (definition d) () d.laid
  | ⟨as, kind, _⟩ => by
    rw [definition, Definition.laid]
    exact lays_definitionKind t as kind

theorem lays_definitionKind (t : SymbolTable) (as : List AnnotationUse) :
    (kind : DefinitionKind Definition) → Lays t (definitionKind as kind) () (kindLaid as kind)
  | .module ⟨_, ds⟩ => by
    rw [definitionKind, kindLaid]
    exact lays_definitions t ds
  | .struct s => by
    rw [definitionKind, kindLaid]
    exact (lays_typeSpec t (.struct s)).discard
  | .union u => by
    rw [definitionKind, kindLaid]
    exact (lays_typeSpec t (.union u)).discard
  | .enum e => by
    rw [definitionKind, kindLaid]
    exact (lays_insert (.enum as e) _ rfl rfl).discard
  | .bitset s => by
    rw [definitionKind, kindLaid]
    exact (lays_bitsetType s).discard
  | .bitmask s => by
    rw [definitionKind, kindLaid]
    exact (lays_insert (.bitmask as s) _ rfl rfl).discard
  | .typedef d => by
    rw [definitionKind, kindLaid]
    exact lays_typedef d
  | .const d => by
    rw [definitionKind, kindLaid]
    exact lays_const d
  | .exception d => by
    rw [definitionKind, kindLaid]
    exact ((lays_members t d.members).bind (lays_insert (.exception d) _ rfl rfl).discard).reorder
      (reordered_last rfl _)
  | .native name => by
    rw [definitionKind, kindLaid]
    exact (lays_insert (.native name) _ rfl rfl).discard
  | .interface ⟨name, _, _, body⟩ => by
    rw [definitionKind, kindLaid]
    exact ((lays_exports t body).bind (lays_sealedEntry name .interface)).reorder
      (reordered_last rfl _)
  | .value ⟨name, _, _, _, _, body⟩ => by
    rw [definitionKind, kindLaid]
    exact ((lays_exports t body).bind (lays_sealedEntry name .value)).reorder
      (reordered_last rfl _)
  | .event ⟨name, _, _, _, _, body⟩ => by
    rw [definitionKind, kindLaid]
    exact ((lays_exports t body).bind (lays_sealedEntry name .event)).reorder
      (reordered_last rfl _)
  | .valueBox d => by
    rw [definitionKind, kindLaid]
    exact lays_sealedEntry d.name .valueBox
  | .component ⟨name, _, _, body⟩ => by
    rw [definitionKind, kindLaid]
    exact ((lays_exports t body).bind (lays_sealedEntry name .component)).reorder
      (reordered_last rfl _)
  | .home ⟨name, _, _, _, _, body⟩ => by
    rw [definitionKind, kindLaid]
    exact ((lays_exports t body).bind (lays_sealedEntry name .home)).reorder
      (reordered_last rfl _)
  | .forward _ => by
    rw [definitionKind, kindLaid]
    exact Lays.pure ()
  | .typeId _ => by
    rw [definitionKind, kindLaid]
    exact Lays.pure ()
  | .typePrefix _ => by
    rw [definitionKind, kindLaid]
    exact Lays.pure ()
  | .annotationDecl _ => by
    rw [definitionKind, kindLaid]
    exact Lays.pure ()

theorem lays_definitions (t : SymbolTable) : (ds : List Definition) →
    Lays t (definitions ds) () (allLaid ds)
  | [] => by
    rw [definitions, allLaid]
    exact Lays.pure ()
  | d :: ds => by
    rw [definitions, allLaid]
    exact (lays_definition t d).bind (lays_definitions t ds)

theorem lays_exports (t : SymbolTable) : (es : List (Export Definition)) →
    Lays t (exports es) () (exportLaid es)
  | [] => by
    rw [exports, exportLaid]
    exact Lays.pure ()
  | .definition d :: rest => by
    rw [exports, exportLaid]
    exact (lays_definition t d).bind (lays_exports t rest)
  | .attribute _ :: rest => by
    rw [exports, exportLaid]
    exact lays_exports t rest
  | .operation _ :: rest => by
    rw [exports, exportLaid]
    exact lays_exports t rest
  | .stateMember _ :: rest => by
    rw [exports, exportLaid]
    exact lays_exports t rest
  | .initializer _ :: rest => by
    rw [exports, exportLaid]
    exact lays_exports t rest
  | .port _ :: rest => by
    rw [exports, exportLaid]
    exact lays_exports t rest

end

/-- Where the entries of a model come from once forward declarations have theirs. -/
theorem insert_forwards (t : SymbolTable) (forwards : List (SymbolId × Symbol)) (m : TypeModel) :
    (∀ e ∈ (forwards.foldl (fun m f => m.insert (forwardEntry t f.1)) m).entries,
      e ∈ m.entries ∨ ∃ f ∈ forwards, e = forwardEntry t f.1) ∧
    ∀ id, ((forwards.foldl (fun m f => m.insert (forwardEntry t f.1)) m).get? id).isSome = true ↔
      (m.get? id).isSome = true ∨ ∃ f ∈ forwards, f.1 = id := by
  induction forwards generalizing m with
  | nil => simp
  | cons f fs ih =>
    obtain ⟨sources, known⟩ := ih (m.insert (forwardEntry t f.1))
    constructor
    · intro e mem
      rcases sources e mem with mem | ⟨g, inside, rfl⟩
      · rcases TypeModel.mem_insert mem with mem | rfl
        · exact .inl mem
        · exact .inr ⟨f, by simp, rfl⟩
      · exact .inr ⟨g, List.mem_cons_of_mem f inside, rfl⟩
    · intro id
      rw [List.foldl_cons, known, TypeModel.get?_insert_isSome_iff, or_assoc]
      simp [forwardEntry]

end Layout

open Layout

variable {s : Specification} {t : SymbolTable}

/-- The symbols whose entries are put into the model: those of declarations, then those of awaited
types. -/
def Specification.entryIds (s : Specification) (t : SymbolTable) : List SymbolId :=
  s.laid.filterMap (entryId? t) ++ t.danglingForwards.map (·.1)

/-- The model: the declarations get their entries, then the awaited types get theirs. -/
theorem enters_buildModel (s : Specification) (t : SymbolTable) :
    ∃ zs m, Reordered zs s.laid ∧ Enters t .empty zs m ∧
      buildModel s t = t.danglingForwards.foldl (fun m f => m.insert (forwardEntry t f.1)) m := by
  obtain ⟨m, run, zs, order, enters⟩ := lays_definitions t s.definitions .empty
  exact ⟨zs, m, order, enters, by rw [buildModel, run]⟩

/-- The model comes about by inserting one entry for each of these symbols. -/
theorem inserted_buildModel (s : Specification) (t : SymbolTable) :
    ∃ es : List Entry, buildModel s t = es.foldl TypeModel.insert .empty ∧
      (es.map (·.id)).Perm (s.entryIds t) := by
  obtain ⟨zs, m, order, enters, built⟩ := enters_buildModel s t
  obtain ⟨es, rfl, ids, -⟩ := enters.inserted
  refine ⟨es ++ t.danglingForwards.map fun f => forwardEntry t f.1, ?_, ?_⟩
  · rw [built, List.foldl_append, List.foldl_map]
  · rw [List.map_append, List.map_map, Specification.entryIds, ids]
    exact (order.perm.filterMap _).append (.refl _)

/-- Each entry describes a declaration, or stands for an awaited type. -/
theorem describes_of_mem {e : Entry} (mem : e ∈ (buildModel s t).entries) :
    (∃ x ∈ s.laid, EntryOf t x e) ∨
      (t.symbol e.id).isForward = true ∧ e.kind = .sealed "forward declaration" := by
  obtain ⟨zs, m, order, enters, built⟩ := enters_buildModel s t
  rw [built] at mem
  rcases (insert_forwards t _ m).1 e mem with mem | ⟨f, inside, rfl⟩
  · rcases enters.sources e mem with none | ⟨x, inside, entry⟩
    · cases none
    · exact .inl ⟨x, order.perm.mem_iff.mp inside, entry⟩
  · exact .inr ⟨(t.mem_danglingForwards _).mp ⟨f, inside, rfl⟩, rfl⟩

/-- Each entry goes by the qualified name of its symbol. -/
theorem name_of_mem {e : Entry} (mem : e ∈ (buildModel s t).entries) :
    e.name = t.qualifiedName e.id := by
  obtain ⟨zs, m, -, enters, built⟩ := enters_buildModel s t
  rw [built] at mem
  rcases (insert_forwards t _ m).1 e mem with mem | ⟨f, -, rfl⟩
  · rcases enters.sources e mem with none | ⟨x, -, entry⟩
    · cases none
    · exact entry.name
  · rfl

/-- Each declaration that has a layout has an entry, and so has each awaited type. -/
theorem get?_buildModel_isSome {id : SymbolId}
    (known : (∃ x ∈ s.laid, t.settledAt? x.name = some id ∧ ∃ kind, Describes t x kind) ∨
      (t.symbol id).isForward = true) :
    ((buildModel s t).get? id).isSome = true := by
  obtain ⟨zs, m, order, enters, built⟩ := enters_buildModel s t
  rw [built, (insert_forwards t _ m).2]
  rcases known with ⟨x, mem, place, described⟩ | forward
  · exact .inl (enters.entered (order.perm.mem_iff.mpr mem)
      (entryId?_eq_some_iff.mpr ⟨place, described⟩))
  · exact .inr ((t.mem_danglingForwards id).mpr forward)

end Idl
