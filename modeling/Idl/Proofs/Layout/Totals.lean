import Idl.Proofs.Layout.Bitset
import Idl.Proofs.Rules.Widths

/-!
The bits of bitsets, counted twice: by the rules, which hold each total against the limit, and by
the layouts. The counts are the same as long as each bitfield has one name at most, and no base is
defined in place by a state member. Main statement: `bitsets_within_limit`.
-/

set_option autoImplicit false

namespace Idl

open Binding Layout Rules

/-! The layouts, bitset by bitset. -/

/-- The bits of each symbol once a bitset has been laid out. -/
def laidBits (t : SymbolTable) (bits : SymbolId → Nat) (b : BitsetType) : SymbolId → Nat :=
  match t.settledAt? b.name with
  | some id =>
    Function.update bits id (bitfields ((b.base.bind (·.target)).elim 0 bits) b.bitfields).2
  | none => bits

namespace TypeModel

theorem inheritedBits_of_mem {m : TypeModel} (distinct : (m.entries.map (·.id)).Nodup) {e : Entry}
    (mem : e ∈ m.entries) {layout : BitsetLayout} (kind : e.kind = .bitset layout) :
    inheritedBits m (some e.id) = layout.totalBits := by
  have ends : m.entries ++ [] = m.entries := List.append_nil _
  have same := inheritedBits_front (ends.symm ▸ distinct) (ends.symm ▸ mem) kind
  rwa [if_pos mem] at same

/-- Only the symbol of a new entry may get bits. -/
theorem inheritedBits_insert_ne {m : TypeModel} {e : Entry} {id : SymbolId} (other : id ≠ e.id)
    (free : m.get? e.id = none) : inheritedBits (m.insert e) (some id) =
      inheritedBits m (some id) := by
  have same : (m.insert e).get? id = m.get? id := by
    rw [insert, free]
    simp [get?, List.find?_append, Ne.symm other]
  rw [inheritedBits, inheritedBits, Option.bind_some, Option.bind_some, same]

theorem get?_insert_self {m : TypeModel} {e : Entry} (free : m.get? e.id = none) :
    (m.insert e).get? e.id = some e := by
  have none : m.entries.find? (·.id == e.id) = none := free
  rw [insert, free]
  simp [get?, List.find?_append, none]

end TypeModel

theorem inheritedBits_bind (m : TypeModel) (base : Option SymbolId) :
    inheritedBits m base = base.elim 0 fun id => inheritedBits m (some id) := by
  cases base <;> rfl

/-- The bits that an entry hands down. -/
def EntryKind.bits : EntryKind → Nat
  | .bitset layout => layout.totalBits
  | _ => 0

theorem Laid.eq_of_bitset? {x : Laid} {b : BitsetType} (found : x.bitset? = some b) :
    x = .bitset b := by
  cases x with
  | bitset c => rw [Option.some_inj.mp found]
  | _ => cases found

theorem bits_of_describes {t : SymbolTable} {x : Laid} {kind : EntryKind}
    (describes : Describes t x kind) (other : x.bitset? = none) : kind.bits = 0 := by
  cases x with
  | bitset _ => cases other
  | const _ => obtain ⟨_, _, rfl⟩ := describes; rfl
  | closed _ _ => obtain ⟨_, rfl⟩ := describes; rfl
  | _ => subst describes; rfl

/-- What is laid out hands its bits down bitset by bitset. -/
theorem Layout.Enters.bits {t : SymbolTable} {m m' : TypeModel} {xs : List Laid}
    (enters : Enters t m xs m')
    (distinct : (m.entries.map (·.id) ++ xs.filterMap (entryId? t)).Nodup) :
    (fun id => inheritedBits m' (some id)) =
      (bitsets xs).foldl (laidBits t) fun id => inheritedBits m (some id) := by
  induction enters with
  | nil m => rfl
  | @skip m m' x xs unentered _ ih =>
    rw [List.filterMap_cons, unentered] at distinct
    rw [ih distinct]
    cases x with
    | bitset b =>
      have unsettled : t.settledAt? b.name = none := unentered
      have step : laidBits t (fun id => inheritedBits m (some id)) b =
          fun id => inheritedBits m (some id) := by rw [laidBits, unsettled]
      exact congrArg ((bitsets xs).foldl (laidBits t)) step.symm
    | _ => rfl
  | @insert m m' x xs e entry _ ih =>
    have found := entryId?_eq_some_iff.mpr ⟨entry.place, e.kind, entry.describes⟩
    rw [List.filterMap_cons, found] at distinct
    have free : m.get? e.id = none := by
      rw [TypeModel.get?_eq_none_iff]
      exact fun mem => (List.nodup_append.mp distinct).2.2 _ mem _ List.mem_cons_self rfl
    have entries : (m.insert e).entries = m.entries ++ [e] := by
      rw [TypeModel.insert, free]
      rfl
    rw [ih (by rw [entries]; simpa using distinct)]
    have unlike (id : SymbolId) (other : id ≠ e.id) :
        inheritedBits (m.insert e) (some id) = inheritedBits m (some id) :=
      TypeModel.inheritedBits_insert_ne other free
    have own {kind : EntryKind} (eq : e.kind = kind) :
        inheritedBits (m.insert e) (some e.id) = kind.bits := by
      subst eq
      rw [inheritedBits, Option.bind_some, TypeModel.get?_insert_self free]
      obtain ⟨id, name, kind⟩ := e
      cases kind <;> rfl
    cases bitset : x.bitset? with
    | some b =>
      obtain rfl := Laid.eq_of_bitset? bitset
      have place : t.settledAt? b.name = some e.id := entry.place
      have step : (fun id => inheritedBits (m.insert e) (some id)) =
          laidBits t (fun id => inheritedBits m (some id)) b := by
        rw [laidBits, place]
        funext id
        by_cases same : id = e.id
        · subst same
          simp only [Function.update_self]
          rw [own (entry.bits b rfl), ← inheritedBits_bind]
          rfl
        · simp only [Function.update_of_ne same]
          exact unlike id same
      rw [step]
      rfl
    | none =>
      have step : (fun id => inheritedBits (m.insert e) (some id)) =
          fun id => inheritedBits m (some id) := by
        funext id
        by_cases same : id = e.id
        · subst same
          rw [own rfl, bits_of_describes entry.describes bitset, inheritedBits, Option.bind_some,
            free]
        · exact unlike id same
      rw [step, bitsets, bitsets, List.filterMap_cons, bitset]

/-! The two counts. -/

theorem maxWidth_le (type : Option Primitive) : maxWidth type ≤ 64 := by
  cases type with
  | none => decide
  | some k => cases k <;> decide

/-- A width that was evaluated and is in range counts as what it is. -/
theorem bitfieldWidth_eq {f : Bitfield} (sized : Sized f.width) (fits : FitsWidth f) :
    (bitfieldWidth f).1 = wordSize f.width := by
  obtain ⟨v, value, -⟩ := size_of_sized sized
  obtain ⟨lower, upper⟩ := fits v value
  have limit := maxWidth_le f.type
  rw [bitfieldWidth, value]
  simp only [if_pos (And.intro lower upper)]
  exact (wordSize_of_sized sized value (by omega) (by omega)).symm

theorem foldl_bitfieldWidth {fs : List Bitfield}
    (counted : ∀ f ∈ fs, (bitfieldWidth f).1 = wordSize f.width) (start : Int) :
    (fs.map bitfieldWidth).foldl (fun total field => total + field.1) start =
      start + ((fs.map fun f => wordSize f.width).sum : Nat) := by
  induction fs generalizing start with
  | nil => simp
  | cons f fs ih =>
    rw [List.map_cons, List.foldl_cons, ih fun g mem => counted g (List.mem_cons_of_mem f mem),
      counted f List.mem_cons_self, List.map_cons, List.sum_cons]
    omega

theorem widths_bitfieldRun (width : Nat) (type : Primitive) (names : List (Option String))
    (start : Nat) :
    ((bitfieldRun width type start names).1.map (·.width)).sum = names.length * width := by
  induction names generalizing start with
  | nil => simp [bitfieldRun]
  | cons name names ih =>
    rw [bitfieldRun, List.map_cons, List.sum_cons, ih, List.length_cons, Nat.succ_mul]
    exact Nat.add_comm width _

/-- In a layout, a bitfield has its width once for each of its names. -/
theorem widths_bitfields (fs : List Bitfield) (start : Nat) :
    ((bitfields start fs).1.map (·.width)).sum =
      (fs.map fun f => max 1 f.names.length * wordSize f.width).sum := by
  induction fs generalizing start with
  | nil => rfl
  | cons f fs ih =>
    have names : (if f.names.isEmpty then [none] else f.names.map fun n => some n.name).length =
        max 1 f.names.length := by
      cases f.names <;> simp
    rw [bitfields, List.map_append, List.sum_append, widths_bitfieldRun, names, ih, List.map_cons,
      List.sum_cons]

/-- Both counts of a bitset are the same if they start with the same bits, no bitfield has more
than one name and the count of the rules is within the limit. -/
theorem total_eq {b : BitsetType} {widths : List (SymbolId × Int)} {start : Nat}
    (inherited : ((b.base.bind (·.target)).bind fun id => widths.lookup id).getD 0 = start)
    (counted : ∀ f ∈ b.bitfields, (bitfieldWidth f).1 = wordSize f.width)
    (single : ∀ f ∈ b.bitfields, f.names.length ≤ 1) (within : total widths b ≤ maxBits) :
    total widths b = (bitfields start b.bitfields).2 := by
  have limit : maxBits = 64 := rfl
  have large : maxOffset = 4294967295 := rfl
  have sum : total widths b = start + ((b.bitfields.map fun f => wordSize f.width).sum : Nat) := by
    rw [total, inherited]
    exact foldl_bitfieldWidth counted start
  have once : (b.bitfields.map fun f => max 1 f.names.length * wordSize f.width) =
      b.bitfields.map fun f => wordSize f.width := by
    refine List.map_congr_left fun f mem => ?_
    rw [Nat.max_eq_left (single f mem), Nat.one_mul]
  have stop := (contiguous_bitfields b.bitfields start).stop_eq (by omega)
  rw [widths_bitfields, once] at stop
  omega

/-- A bitset that is counted alike by both, if it is one of those of interest and its base was. -/
structure Alike (t : SymbolTable) (Plain : SymbolId → Prop) (b : BitsetType) : Prop where
  settled : ∃ id, t.definedAt? b.name.span = some id ∧ t.settledAt? b.name = some id
  counted : ∀ f ∈ b.bitfields, (bitfieldWidth f).1 = wordSize f.width
  single : ∀ id, t.settledAt? b.name = some id → Plain id → ∀ f ∈ b.bitfields, f.names.length ≤ 1
  base : ∀ id, t.settledAt? b.name = some id → Plain id →
    ∀ base ∈ b.base.bind (·.target), Plain base

theorem lookup_recorded_ne {t : SymbolTable} {widths : List (SymbolId × Int)} {b : BitsetType}
    {id : SymbolId} (other : t.definedAt? b.name.span ≠ some id) :
    (recorded t widths b).lookup id = widths.lookup id := by
  rw [recorded]
  cases found : t.definedAt? b.name.span with
  | none => rfl
  | some own =>
    have unequal : (id == own) = false := by
      rw [beq_eq_false_iff_ne]
      rintro rfl
      exact other found
    simp only [List.lookup_cons, unequal]

/-- What both have counted of the symbols of interest stays the same, bitset by bitset. -/
theorem agree_of_among {t : SymbolTable} {Plain : SymbolId → Prop}
    {states hidden : List Declaration} {bs ys : List BitsetType}
    (among : Among states hidden bs ys) (alike : ∀ b ∈ bs, Alike t Plain b)
    (apart : ∀ name id, ⟨name, .defined .bitset⟩ ∈ states →
      t.definedAt? name.span = some id → ¬ Plain id)
    (nowhere : ∀ name, ⟨name, .defined .bitset⟩ ∈ hidden → t.definedAt? name.span = none)
    {widths : List (SymbolId × Int)} {bits : SymbolId → Nat}
    (agree : ∀ id, Plain id → (widths.lookup id).getD 0 = bits id)
    (within : WithinLimit t widths ys) :
    ∀ id, Plain id → ((ys.foldl (recorded t) widths).lookup id).getD 0 =
      (bs.foldl (laidBits t) bits) id := by
  induction among generalizing widths bits with
  | nil => exact agree
  | @own bs ys b _ ih =>
    have first := alike b List.mem_cons_self
    obtain ⟨own, place, settled⟩ := first.settled
    refine ih (fun c mem => alike c (.tail b mem)) (fun id plain => ?_) within.2
    rw [laidBits, settled]
    by_cases same : id = own
    · subst same
      have inherited : ((b.base.bind (·.target)).bind fun id => widths.lookup id).getD 0 =
          ((b.base.bind (·.target)).elim 0 bits : Nat) := by
        cases base : b.base.bind (·.target) with
        | none => rfl
        | some target => exact agree target (first.base id settled plain target base)
      have counts := total_eq inherited first.counted (first.single id settled plain) within.1
      rw [recorded, place]
      simp only [List.lookup_cons, beq_self_eq_true, Option.getD_some, Function.update_self]
      exact counts
    · rw [lookup_recorded_ne (by rw [place]; exact fun eq => same (Option.some_inj.mp eq).symm)]
      simp only [Function.update_of_ne same]
      exact agree id plain
  | @state bs ys b mem _ ih =>
    refine ih alike (fun id plain => ?_) within.2
    rw [lookup_recorded_ne fun place => apart b.name id mem place plain]
    exact agree id plain
  | @hidden bs ys b mem _ ih =>
    refine ih alike (fun id plain => ?_) within.2
    rw [lookup_recorded_ne (by rw [nowhere b.name mem]; exact (Option.some_ne_none id).symm)]
    exact agree id plain

/-- A bitset that was counted has a total. -/
theorem isSome_lookup_recorded {t : SymbolTable} {ys : List BitsetType} {b : BitsetType}
    (mem : b ∈ ys) {id : SymbolId} (place : t.definedAt? b.name.span = some id)
    (widths : List (SymbolId × Int)) :
    ((ys.foldl (recorded t) widths).lookup id).isSome = true := by
  have kept (c : BitsetType) (widths : List (SymbolId × Int))
      (known : (widths.lookup id).isSome = true) :
      ((recorded t widths c).lookup id).isSome = true := by
    by_cases same : t.definedAt? c.name.span = some id
    · simp [recorded, same]
    · rw [lookup_recorded_ne same]
      exact known
  have stays (ys : List BitsetType) (widths : List (SymbolId × Int))
      (known : (widths.lookup id).isSome = true) :
      ((ys.foldl (recorded t) widths).lookup id).isSome = true := by
    induction ys generalizing widths with
    | nil => exact known
    | cons c ys ih => exact ih _ (kept c widths known)
  induction ys generalizing widths with
  | nil => cases mem
  | cons c ys ih =>
    rcases List.mem_cons.mp mem with rfl | mem
    · exact stays ys _ (by simp [recorded, place])
    · exact ih mem _

/-! Documents. -/

/-- The bitset of `id` is declared with `base` as its base. -/
def DeclaredBase (s : Specification) (t : SymbolTable) (id base : SymbolId) : Prop :=
  ∃ b, Laid.bitset b ∈ s.laid ∧ t.settledAt? b.name = some id ∧
    b.base.bind (·.target) = some base

/-- No bitfield of the bitset, or of one that it goes back to, has more than one name, and none of
them is defined in place by a state member. -/
def CountedAlike (s : Specification) (t : SymbolTable) (id : SymbolId) : Prop :=
  ∀ other, Relation.ReflTransGen (DeclaredBase s t) id other → ¬ StateDefined s t other ∧
    ∀ b, Laid.bitset b ∈ s.laid → t.settledAt? b.name = some other →
      ∀ f ∈ b.bitfields, f.names.length ≤ 1

theorem mem_bitsets {b : BitsetType} {xs : List Laid} : b ∈ bitsets xs ↔ Laid.bitset b ∈ xs := by
  rw [bitsets, List.mem_filterMap]
  constructor
  · rintro ⟨x, mem, found⟩
    rwa [← Laid.eq_of_bitset? found]
  · exact fun mem => ⟨_, mem, rfl⟩

/-- No bitset counts twice where no bitfield has more than one name and no state member has a type
of its own. -/
theorem countedAlike_of_single {s : Specification} {t : SymbolTable}
    (states : s.stateDeclarations = [])
    (single : ((bitsets s.laid).all fun b => b.bitfields.all (·.names.length ≤ 1)) = true)
    (id : SymbolId) : CountedAlike s t id := by
  intro other _
  refine ⟨?_, fun b mem _ f field => ?_⟩
  · rintro ⟨name, kind, mem, -⟩
    rw [states] at mem
    cases mem
  · have fields := List.all_eq_true.mp single b (mem_bitsets.mpr mem)
    simpa using List.all_eq_true.mp fields f field

namespace Clean

variable {parsed s : Specification} {t : SymbolTable}

theorem alike (clean : Clean parsed s t) {b : BitsetType} (mem : Laid.bitset b ∈ s.laid) :
    Alike t (CountedAlike s t) b where
  settled := by
    obtain ⟨id, settled, -⟩ := clean.settledAt? mem
    exact ⟨id, (SymbolTable.settledAt?_eq_some_iff.mp settled).1, settled⟩
  counted f field := by
    obtain ⟨y, -, bound⟩ := exists_of_forall₂ clean.bound _ mem
    exact bitfieldWidth_eq (bound.of_bitset.2 f field).1 ((clean.checked _ mem).2 f field)
  single id place plain := (plain id .refl).2 b mem place
  base id place plain base target other chain :=
    plain other (.head ⟨b, mem, place, target⟩ chain)

/-- What is written in the type of a constant or of a value box has no symbol. -/
theorem definedAt?_hidden (clean : Clean parsed s t) {x : Declaration} (mem : x ∈ s.hidden) :
    t.definedAt? x.name.span = none := by
  refine Option.eq_none_iff_forall_ne_some.mpr fun id place => ?_
  have declared := clean.entered.places _ _ place
  rw [clean.declarations] at declared
  rw [clean.hidden] at mem
  exact clean.placed.hidden x mem declared

/-- The bits of an entry are those that the layouts of the bitsets give to its symbol. -/
theorem totalBits_eq (clean : Clean parsed s t) {e : Entry} (mem : e ∈ (buildModel s t).entries)
    {layout : BitsetLayout} (kind : e.kind = .bitset layout) :
    layout.totalBits = (bitsets s.laid).foldl (laidBits t) (fun _ => 0) e.id := by
  obtain ⟨zs, es, laidOut⟩ := clean.laidOut
  have inside : e ∈ es := by
    rw [laidOut.entries] at mem
    refine (List.mem_append.mp mem).resolve_right fun awaited => ?_
    obtain ⟨f, -, rfl⟩ := List.mem_map.mp awaited
    cases kind
  have distinct := laidOut.distinct
  rw [laidOut.entries, List.map_append] at distinct
  have own := List.Nodup.of_append_left distinct
  have bits := congrFun (laidOut.enters.bits
    (by simpa [TypeModel.empty, ← laidOut.ids] using own)) e.id
  rw [TypeModel.inheritedBits_of_mem own inside kind] at bits
  rw [bits, bitsets, bitsets, laidOut.order.bitsets]
  rfl

/-- The total that the rules have for a bitset, and the bits of its layout. -/
theorem total_of_mem (clean : Clean parsed s t) {ys : List BitsetType} (weighed : Weighed s t ys)
    {e : Entry} (mem : e ∈ (buildModel s t).entries) {layout : BitsetLayout}
    (kind : e.kind = .bitset layout) : ∃ total, (widths s t).lookup e.id = some total ∧
      total ≤ 64 ∧ (CountedAlike s t e.id → layout.totalBits = total) := by
  obtain ⟨front, back, split⟩ := List.append_of_mem mem
  obtain ⟨b, laid, entry⟩ := clean.entersAs_bitset split kind
  have place := (SymbolTable.settledAt?_eq_some_iff.mp entry.place).1
  have known := isSome_lookup_recorded (weighed.among.mem (mem_bitsets.mpr laid)) place []
  obtain ⟨total, found⟩ := Option.isSome_iff_exists.mp known
  rw [weighed.widths]
  refine ⟨total, found, ?_, fun plain => ?_⟩
  · obtain ⟨before, behind, split, -⟩ := List.lookup_eq_some_iff.mp found
    exact le_of_mem_recorded ys (by simp) weighed.within (e.id, total) (by rw [split]; simp)
  · have none (id : SymbolId) (_ : CountedAlike s t id) :
        (([] : List (SymbolId × Int)).lookup id).getD 0 =
          ((fun _ => 0 : SymbolId → Nat) id : Int) :=
      rfl
    have agree := agree_of_among weighed.among (fun c mem => clean.alike (mem_bitsets.mp mem))
      (fun name id mem place plain => (plain id .refl).1 ⟨name, _, mem, place⟩)
      (fun name mem => clean.definedAt?_hidden mem) none weighed.within e.id plain
    rw [found, ← clean.totalBits_eq mem kind] at agree
    exact agree.symm

end Clean

namespace Document

theorem weighed_of_unfailed {options : ParseOptions} {text : String}
    (ok : (ofText options text).hasErrors = false) :
    ∃ ys, Weighed (ofText options text).specification (ofText options text).symbols ys :=
  weighed_of_quiet _ _ (unfailed_of_severity (severity_ne_error ok)).quiet

/-- The rules have a total for each bitset, and it is within the limit. The layout has as many bits,
and its fields are within them, unless a bitfield of the bitset or of one that it goes back to has
more than one name, or one of these is defined in place by a state member. -/
theorem bitsets_within_limit (options : ParseOptions) (text : String)
    (ok : (ofText options text).hasErrors = false) :
    ∀ e ∈ (ofText options text).model.entries, ∀ layout, e.kind = .bitset layout →
      ∃ total, (Rules.widths (ofText options text).specification
          (ofText options text).symbols).lookup e.id = some total ∧ total ≤ 64 ∧
        (CountedAlike (ofText options text).specification (ofText options text).symbols e.id →
          layout.totalBits = total ∧ ∀ f ∈ layout.fields, f.offset + f.width ≤ 64) := by
  intro e mem layout kind
  have clean := clean_of_unfailed ok
  obtain ⟨ys, weighed⟩ := weighed_of_unfailed ok
  obtain ⟨total, found, within, agree⟩ := clean.total_of_mem weighed mem kind
  refine ⟨total, found, within, fun plain => ⟨agree plain, fun f field => ?_⟩⟩
  obtain ⟨front, back, split⟩ := List.append_of_mem mem
  have stop := ((clean.contiguous split kind).within (clean.inheritedBits_le split _) f field).2
  have same := agree plain
  have large : maxOffset = 4294967295 := rfl
  rw [BitfieldLayout.stop] at stop
  omega

theorem bitsets_within_limit_of_base :
    (ofText {} "bitset A { bitfield<9> a; }; bitset B : A { bitfield<2> b; };").hasErrors =
        false ∧
      ∃ e ∈ (ofText {} "bitset A { bitfield<9> a; }; bitset B : A { bitfield<2> b; };"
        ).model.entries, ∃ layout, e.kind = .bitset layout ∧
        layout.fields = [⟨some "b", 9, 2, .octet⟩] ∧
        (Rules.widths
          (ofText {} "bitset A { bitfield<9> a; }; bitset B : A { bitfield<2> b; };").specification
          (ofText {} "bitset A { bitfield<9> a; }; bitset B : A { bitfield<2> b; };").symbols
          ).lookup e.id = some 11 := by
  have ok : (ofText {} "bitset A { bitfield<9> a; }; bitset B : A { bitfield<2> b; };"
      ).hasErrors = false := by decide +kernel
  have mem : ⟨2, "B", .bitset ⟨some 1, [⟨some "b", 9, 2, .octet⟩], 11⟩⟩ ∈
      (ofText {} "bitset A { bitfield<9> a; }; bitset B : A { bitfield<2> b; };"
        ).model.entries := by
    cbv
    exact .tail _ (.head _)
  obtain ⟨total, found, -, agree⟩ := bitsets_within_limit {} _ ok _ mem _ rfl
  obtain ⟨same, -⟩ := agree (countedAlike_of_single (by decide +kernel) (by decide +kernel) _)
  have eleven : total = 11 := same.symm
  exact ⟨ok, _, mem, _, rfl, rfl, eleven ▸ found⟩

/-- The rules count the bits of two names once, and the layout has both. -/
theorem bitset_beyond_limit_of_names :
    (ofText {} "bitset B { bitfield<40> a, b; };").hasErrors = false ∧
      (ofText {} "bitset B { bitfield<40> a, b; };").model.entries =
        [⟨1, "B", .bitset ⟨none, [⟨some "a", 0, 40, .ulongLong⟩, ⟨some "b", 40, 40, .ulongLong⟩],
          80⟩⟩] ∧
      (Rules.widths (ofText {} "bitset B { bitfield<40> a, b; };").specification
        (ofText {} "bitset B { bitfield<40> a, b; };").symbols).lookup 1 = some 40 :=
  ⟨by decide +kernel, by decide +kernel, by decide +kernel⟩

end Document

end Idl
