import Idl.Proofs.Layout.Document
import Idl.Proofs.Layout.Names

/-!
The bits of bitsets. Fields stand one behind the other, from the bits of the base on if the base
has its entry in front, and from zero on otherwise. Main statement: `bitsets_contiguous`.
-/

set_option autoImplicit false

namespace Idl

open Layout

/-- Where the field ends. No offset goes beyond the largest one. -/
def BitfieldLayout.stop (f : BitfieldLayout) : Nat := min (f.offset + f.width) maxOffset

namespace Layout

/-- The fields take the bits from `start` to `stop`, each from where the one before it ends. -/
def Contiguous : (start : Nat) → List BitfieldLayout → (stop : Nat) → Prop
  | start, [], stop => start = stop
  | start, f :: fs, stop => f.offset = start ∧ Contiguous f.stop fs stop

namespace Contiguous

variable {start middle stop : Nat} {fs gs : List BitfieldLayout}

theorem append (first : Contiguous start fs middle) (second : Contiguous middle gs stop) :
    Contiguous start (fs ++ gs) stop := by
  induction fs generalizing start with
  | nil =>
    obtain rfl : start = middle := first
    exact second
  | cons f fs ih => exact ⟨first.1, ih first.2⟩

/-- As long as offsets can grow, a field takes as many bits as it is wide. -/
theorem stop_eq (contiguous : Contiguous start fs stop) (small : start ≤ maxOffset) :
    stop = min (start + (fs.map (·.width)).sum) maxOffset := by
  induction fs generalizing start with
  | nil =>
    obtain rfl : start = stop := contiguous
    simp [small]
  | cons f fs ih =>
    obtain ⟨rfl, rest⟩ := contiguous
    rw [ih rest (Nat.min_le_right _ _), BitfieldLayout.stop, List.map_cons, List.sum_cons]
    omega

theorem le (contiguous : Contiguous start fs stop) (small : start ≤ maxOffset) : start ≤ stop := by
  have eq := contiguous.stop_eq small
  omega

theorem stop_le (contiguous : Contiguous start fs stop) (small : start ≤ maxOffset) :
    stop ≤ maxOffset := by
  have eq := contiguous.stop_eq small
  omega

/-- The fields stand within the bits that they take. -/
theorem within (contiguous : Contiguous start fs stop) (small : start ≤ maxOffset) :
    ∀ f ∈ fs, start ≤ f.offset ∧ f.stop ≤ stop := by
  induction fs generalizing start with
  | nil => simp
  | cons f fs ih =>
    obtain ⟨rfl, rest⟩ := contiguous
    have grown : f.offset ≤ f.stop := by
      rw [BitfieldLayout.stop]
      omega
    have bounded : f.stop ≤ maxOffset := Nat.min_le_right _ _
    intro g mem
    rcases List.mem_cons.mp mem with rfl | mem
    · exact ⟨Nat.le_refl _, rest.le bounded⟩
    · obtain ⟨lower, upper⟩ := ih rest bounded g mem
      exact ⟨Nat.le_trans grown lower, upper⟩

/-- No two fields share a bit. -/
theorem pairwise (contiguous : Contiguous start fs stop) :
    fs.Pairwise fun f g => f.stop ≤ g.offset := by
  induction fs generalizing start with
  | nil => exact .nil
  | cons f fs ih =>
    obtain ⟨-, rest⟩ := contiguous
    exact .cons (fun g mem => (rest.within (Nat.min_le_right _ _) g mem).1) (ih rest)

end Contiguous

theorem contiguous_bitfieldRun (width : Nat) (type : Primitive) (names : List (Option String))
    (start : Nat) : Contiguous start (bitfieldRun width type start names).1
      (bitfieldRun width type start names).2 := by
  induction names generalizing start with
  | nil => exact rfl
  | cons name names ih => exact ⟨rfl, ih _⟩

theorem contiguous_bitfields (fs : List Bitfield) (start : Nat) :
    Contiguous start (bitfields start fs).1 (bitfields start fs).2 := by
  induction fs generalizing start with
  | nil => exact rfl
  | cons f fs ih => exact (contiguous_bitfieldRun _ _ _ start).append (ih _)

end Layout

namespace TypeModel

theorem get?_of_mem {m : TypeModel} (distinct : (m.entries.map (·.id)).Nodup) {e : Entry}
    (mem : e ∈ m.entries) : m.get? e.id = some e := by
  have known : (m.get? e.id).isSome = true := (m.get?_isSome_iff e.id).mpr ⟨e, mem, rfl⟩
  obtain ⟨other, found⟩ := Option.isSome_iff_exists.mp known
  have same := List.inj_on_of_nodup_map distinct (mem_of_get? found) mem (id_of_get? found)
  rw [found, same]

/-- The bits that a base hands down once the entries in front are there. -/
theorem inheritedBits_front {front back : List Entry}
    (distinct : ((front ++ back).map (·.id)).Nodup) {b : Entry} (mem : b ∈ front ++ back)
    {layout : BitsetLayout} (kind : b.kind = .bitset layout) :
    inheritedBits ⟨front⟩ (some b.id) = if b ∈ front then layout.totalBits else 0 := by
  rw [List.map_append] at distinct
  split
  · next inside =>
    have found : (TypeModel.mk front).get? b.id = some b :=
      get?_of_mem (List.Nodup.of_append_left distinct) inside
    obtain ⟨id, name, _⟩ := b
    subst kind
    rw [inheritedBits, Option.bind_some, found]
  · next outside =>
    have behind : b ∈ back := (List.mem_append.mp mem).resolve_left outside
    have missing : (TypeModel.mk front).get? b.id = none := by
      rw [get?_eq_none_iff]
      intro shared
      exact (List.nodup_append.mp distinct).2.2 _ shared _ (List.mem_map_of_mem behind) rfl
    rw [inheritedBits, Option.bind_some, missing]

/-- A base without an entry hands down nothing. -/
theorem inheritedBits_eq_zero {m : TypeModel} {base : Option SymbolId}
    (missing : ∀ b ∈ m.entries, base ≠ some b.id) : inheritedBits m base = 0 := by
  cases base with
  | none => rfl
  | some id =>
    have none : m.get? id = none := by
      rw [get?_eq_none_iff]
      intro mem
      obtain ⟨b, inside, rfl⟩ := List.mem_map.mp mem
      exact missing b inside rfl
    rw [inheritedBits, Option.bind_some, none]

theorem inheritedBits_le {m : TypeModel} {limit : Nat} (le : ∀ b ∈ m.entries, ∀ layout,
    b.kind = .bitset layout → layout.totalBits ≤ limit) (base : Option SymbolId) :
    inheritedBits m base ≤ limit := by
  rw [inheritedBits]
  split
  · next id name layout found =>
    obtain ⟨other, -, found⟩ := Option.bind_eq_some_iff.mp found
    exact le _ (mem_of_get? found) layout rfl
  · exact Nat.zero_le limit

/-- The bitset of `e` has the one of `b` as its base, and `b` stands in front of it. -/
def Continues (m : TypeModel) (e b : Entry) : Prop :=
  ∃ front back layout inherited, m.entries = front ++ e :: back ∧ e.kind = .bitset layout ∧
    b.kind = .bitset inherited ∧ layout.base = some b.id ∧ b ∈ front

end TypeModel

/-- The entries `es` of the declarations `zs` stand in the model in their order, and those of the
awaited types behind them. No two are of one symbol. -/
structure LaidOut (s : Specification) (t : SymbolTable) (zs : List Laid) (es : List Entry) :
    Prop where
  order : Reordered zs s.laid
  enters : Enters t .empty zs ⟨es⟩
  ids : es.map (·.id) = zs.filterMap (entryId? t)
  entries : (buildModel s t).entries = es ++ t.danglingForwards.map fun f => forwardEntry t f.1
  distinct : ((buildModel s t).entries.map (·.id)).Nodup
  /-- Each entry was laid out over those in front of it. -/
  origin : ∀ front e back, es = front ++ e :: back → ∃ x ∈ s.laid, EntersAs t ⟨front⟩ x e

namespace Clean

variable {parsed s : Specification} {t : SymbolTable}

theorem laidOut (clean : Clean parsed s t) : ∃ zs es, LaidOut s t zs es := by
  obtain ⟨zs, m, order, enters, built⟩ := enters_buildModel s t
  obtain ⟨es, rfl, ids, origin⟩ := enters.inserted
  have perm : ((es ++ t.danglingForwards.map fun f => forwardEntry t f.1).map (·.id)).Perm
      (s.entryIds t) := by
    rw [List.map_append, List.map_map, Specification.entryIds, ids]
    exact (order.perm.filterMap _).append (.refl _)
  have distinct := perm.nodup_iff.mpr clean.nodup_entryIds
  have reached {front back : List Entry} (split : es = front ++ back) :
      front.foldl TypeModel.insert .empty = ⟨front⟩ := by
    rw [split, List.append_assoc, List.map_append] at distinct
    have entries : (front.foldl TypeModel.insert .empty).entries = front :=
      TypeModel.entries_foldl_insert
        (by simpa [TypeModel.empty] using List.Nodup.of_append_left distinct)
    exact congrArg TypeModel.mk entries
  have all : (buildModel s t).entries =
      es ++ t.danglingForwards.map fun f => forwardEntry t f.1 := by
    rw [built, ← List.foldl_map, ← List.foldl_append]
    exact TypeModel.entries_foldl_insert (by simpa [TypeModel.empty] using distinct)
  refine ⟨zs, es, order, ?_, ids, all, by rw [all]; exact distinct, fun front e back split => ?_⟩
  · rw [← reached (List.append_nil es).symm]
    exact enters
  · obtain ⟨x, mem, entry⟩ := origin front e back split
    rw [reached split] at entry
    exact ⟨x, order.perm.mem_iff.mp mem, entry⟩

theorem nodup_ids (clean : Clean parsed s t) : ((buildModel s t).entries.map (·.id)).Nodup := by
  obtain ⟨_, _, laidOut⟩ := clean.laidOut
  exact laidOut.distinct

variable {front back : List Entry} {e : Entry} {layout : BitsetLayout}

/-- The bitset of an entry is laid out over the entries in front. -/
theorem entersAs_bitset (clean : Clean parsed s t)
    (split : (buildModel s t).entries = front ++ e :: back) (kind : e.kind = .bitset layout) :
    ∃ b, Laid.bitset b ∈ s.laid ∧ EntersAs t ⟨front⟩ (.bitset b) e := by
  obtain ⟨zs, es, laidOut⟩ := clean.laidOut
  have own (mem : e ∈ t.danglingForwards.map fun f => forwardEntry t f.1) : False := by
    obtain ⟨f, -, rfl⟩ := List.mem_map.mp mem
    cases kind
  have entries := laidOut.entries
  rw [split] at entries
  rcases List.append_eq_append_iff.mp entries with ⟨rest, same, behind⟩ | ⟨rest, same, behind⟩
  · cases rest with
    | nil =>
      rw [List.nil_append] at behind
      exact (own (behind ▸ List.mem_cons_self)).elim
    | cons first rest =>
      obtain ⟨rfl, -⟩ := List.cons_eq_cons.mp behind
      obtain ⟨x, mem, entry⟩ := laidOut.origin front e rest same
      obtain ⟨b, rfl⟩ := (kind ▸ entry.describes).bitset
      exact ⟨b, mem, entry⟩
  · refine (own ?_).elim
    rw [behind]
    exact List.mem_append_right _ List.mem_cons_self

/-- The fields of a bitset go on where its base ends among the entries in front. -/
theorem contiguous (clean : Clean parsed s t)
    (split : (buildModel s t).entries = front ++ e :: back) (kind : e.kind = .bitset layout) :
    Contiguous (inheritedBits ⟨front⟩ layout.base) layout.fields layout.totalBits := by
  obtain ⟨b, -, entry⟩ := clean.entersAs_bitset split kind
  obtain rfl := EntryKind.bitset.inj (kind.symm.trans (entry.bits b rfl))
  exact contiguous_bitfields b.bitfields _

/-- No bitset has more bits than the largest offset. -/
theorem totalBits_le (clean : Clean parsed s t) (front : List Entry) : ∀ back,
    (buildModel s t).entries = front ++ back → ∀ e ∈ front, ∀ layout,
      e.kind = .bitset layout → layout.totalBits ≤ maxOffset := by
  induction front using List.reverseRecOn with
  | nil => simp
  | append_singleton front last ih =>
    intro back split e mem layout kind
    rw [List.append_assoc] at split
    rcases List.mem_append.mp mem with mem | mem
    · exact ih _ split e mem layout kind
    · obtain rfl := List.mem_singleton.mp mem
      exact (clean.contiguous split kind).stop_le (TypeModel.inheritedBits_le (ih _ split) _)

theorem inheritedBits_le (clean : Clean parsed s t) {front back : List Entry}
    (split : (buildModel s t).entries = front ++ back) (base : Option SymbolId) :
    inheritedBits ⟨front⟩ base ≤ maxOffset :=
  TypeModel.inheritedBits_le (clean.totalBits_le front back split) base

/-- The fields of a bitset stand behind all the bits of the base in front of it. -/
theorem totalBits_le_offset (clean : Clean parsed s t) {e b : Entry}
    (continues : (buildModel s t).Continues e b) {layout inherited : BitsetLayout}
    (kind : e.kind = .bitset layout) (base : b.kind = .bitset inherited) :
    inherited.totalBits ≤ layout.totalBits ∧
      ∀ g ∈ layout.fields, inherited.totalBits ≤ g.offset := by
  obtain ⟨front, back, _, _, split, same, -, target, inside⟩ := continues
  obtain rfl := EntryKind.bitset.inj (kind.symm.trans same)
  have distinct := clean.nodup_ids
  rw [split] at distinct
  have bits := TypeModel.inheritedBits_front distinct (List.mem_append_left _ inside) base
  rw [if_pos inside] at bits
  have contiguous := clean.contiguous split kind
  have small := clean.inheritedBits_le split layout.base
  rw [target, bits] at contiguous small
  exact ⟨contiguous.le small, fun g mem => (contiguous.within small g mem).1⟩

/-- The same along a chain of bases. -/
theorem totalBits_le_offset_of_chain (clean : Clean parsed s t) {e b : Entry}
    (chain : Relation.TransGen (buildModel s t).Continues e b) {layout inherited : BitsetLayout}
    (kind : e.kind = .bitset layout) (base : b.kind = .bitset inherited) :
    ∀ g ∈ layout.fields, inherited.totalBits ≤ g.offset := by
  suffices both : inherited.totalBits ≤ layout.totalBits ∧
      ∀ g ∈ layout.fields, inherited.totalBits ≤ g.offset from both.2
  induction chain using Relation.TransGen.head_induction_on generalizing layout with
  | single continues => exact clean.totalBits_le_offset continues kind base
  | head continues _ ih =>
    obtain ⟨_, _, _, between, -, -, kind', -⟩ := id continues
    obtain ⟨total, offsets⟩ := clean.totalBits_le_offset continues kind kind'
    obtain ⟨below, -⟩ := ih kind'
    exact ⟨Nat.le_trans below total, fun g mem => Nat.le_trans below (offsets g mem)⟩

/-- No field shares a bit with one of a bitset that its own goes back to. -/
theorem stop_le_offset (clean : Clean parsed s t) {e b : Entry}
    (mem : b ∈ (buildModel s t).entries)
    (chain : Relation.TransGen (buildModel s t).Continues e b) {layout inherited : BitsetLayout}
    (kind : e.kind = .bitset layout) (base : b.kind = .bitset inherited) :
    ∀ f ∈ inherited.fields, ∀ g ∈ layout.fields, f.stop ≤ g.offset := by
  intro f inside g inside'
  obtain ⟨front, back, split⟩ := List.append_of_mem mem
  have within := (clean.contiguous split base).within (clean.inheritedBits_le split _) f inside
  exact Nat.le_trans within.2 (clean.totalBits_le_offset_of_chain chain kind base g inside')

end Clean

/-- The fields of a bitset take the bits from `start` on, without gaps and without sharing any, and
the last one ends where the bitset does. -/
structure BitsetLayout.StartsAt (b : BitsetLayout) (start : Nat) : Prop where
  contiguous : Contiguous start b.fields b.totalBits
  total : b.totalBits = min (start + (b.fields.map (·.width)).sum) maxOffset
  apart : b.fields.Pairwise fun f g => f.stop ≤ g.offset

namespace Document

/-- A bitset starts where its base ends, if the base stands in front of it in the model; else it
starts at zero. A field shares no bit with another, be it of the same bitset or of one that stands
in front and that this bitset goes back to. -/
theorem bitsets_contiguous (options : ParseOptions) (text : String)
    (ok : (ofText options text).hasErrors = false) :
    (∀ front e back, (ofText options text).model.entries = front ++ e :: back →
      ∀ layout, e.kind = .bitset layout → ∃ start, layout.StartsAt start ∧
        ((∀ b ∈ (ofText options text).model.entries, layout.base ≠ some b.id) → start = 0) ∧
        ∀ b ∈ (ofText options text).model.entries, layout.base = some b.id →
          ∀ inherited, b.kind = .bitset inherited →
            start = if b ∈ front then inherited.totalBits else 0) ∧
    ∀ e b, b ∈ (ofText options text).model.entries →
      Relation.TransGen (ofText options text).model.Continues e b →
      ∀ layout inherited, e.kind = .bitset layout → b.kind = .bitset inherited →
        ∀ f ∈ inherited.fields, ∀ g ∈ layout.fields, f.stop ≤ g.offset := by
  have clean := clean_of_unfailed ok
  refine ⟨fun front e back split layout kind => ?_, fun e b mem chain layout inherited kind base =>
    clean.stop_le_offset mem chain kind base⟩
  have contiguous := clean.contiguous split kind
  have small := clean.inheritedBits_le split layout.base
  refine ⟨_, ⟨contiguous, contiguous.stop_eq small, contiguous.pairwise⟩, fun missing => ?_,
    fun b mem target inherited base => ?_⟩
  · refine TypeModel.inheritedBits_eq_zero fun b mem => missing b ?_
    rw [split]
    exact List.mem_append_left _ mem
  · have distinct := clean.nodup_ids
    have split' : (buildModel (ofText options text).specification
        (ofText options text).symbols).entries = front ++ e :: back := split
    rw [split'] at distinct
    rw [split] at mem
    rw [target]
    exact TypeModel.inheritedBits_front distinct mem base

/-- A bitset starts at zero although its base, which stands behind it, has bits. -/
theorem bitset_restarts_of_later :
    (ofText {} "bitset D : B { bitfield<3> d; }; bitset B { bitfield<5> b; };").hasErrors = false ∧
      ∃ e ∈ (ofText {} "bitset D : B { bitfield<3> d; }; bitset B { bitfield<5> b; };"
        ).model.entries,
      ∃ b ∈ (ofText {} "bitset D : B { bitfield<3> d; }; bitset B { bitfield<5> b; };"
        ).model.entries,
      ∃ layout inherited, e.kind = .bitset layout ∧ b.kind = .bitset inherited ∧
        layout.base = some b.id ∧ inherited.totalBits = 5 ∧ layout.StartsAt 0 := by
  have ok : (ofText {} "bitset D : B { bitfield<3> d; }; bitset B { bitfield<5> b; };"
      ).hasErrors = false := by decide +kernel
  have entries : (ofText {} "bitset D : B { bitfield<3> d; }; bitset B { bitfield<5> b; };"
      ).model.entries = [⟨1, "D", .bitset ⟨some 2, [⟨some "d", 0, 3, .octet⟩], 3⟩⟩,
        ⟨2, "B", .bitset ⟨none, [⟨some "b", 0, 5, .octet⟩], 5⟩⟩] := by decide +kernel
  obtain ⟨start, startsAt, -, base⟩ := (bitsets_contiguous {} _ ok).1 [] _ [_] entries _ rfl
  rw [entries] at base ⊢
  obtain rfl : start = 0 := base _ (.tail _ (.head _)) rfl _ rfl
  exact ⟨ok, _, .head _, _, .tail _ (.head _), _, _, rfl, rfl, rfl, rfl, startsAt⟩

end Document

end Idl
