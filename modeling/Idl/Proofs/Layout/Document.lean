import Idl.Proofs.Layout.Closed
import Idl.Proofs.Layout.Read
import Mathlib

/-!
The model of a document without errors, whatever its text and options: it is sound, its unions are
well labelled, and it is closed but for types that state members define in place. Its bitmasks have
bit bounds in range and flags with positions of their own below the bound, unless the bound is
annotated without a number. Main statement: `bitmasks_fit`.
-/

set_option autoImplicit false

namespace Idl

namespace Document

theorem clean_of_unfailed {options : ParseOptions} {text : String}
    (ok : (ofText options text).hasErrors = false) :
    Clean (parseText options.maxNesting text).specification (ofText options text).specification
      (ofText options text).symbols :=
  clean_ofText (wellPlaced_parseText _ _) ok

/-- No reference is unresolved, sizes and widths are in range, bases are of the right kind, and
names within one owner are distinct. -/
theorem entries_sound (options : ParseOptions) (text : String)
    (ok : (ofText options text).hasErrors = false) :
    ∀ e ∈ (ofText options text).model.entries, e.kind.Sound (ofText options text).symbols :=
  (clean_of_unfailed ok).sound

theorem entries_sound_of_bitset :
    (ofText {} "bitset B { bitfield<3> b; };").hasErrors = false ∧
      ∀ e ∈ (ofText {} "bitset B { bitfield<3> b; };").model.entries,
        e.kind.Sound (ofText {} "bitset B { bitfield<3> b; };").symbols :=
  ⟨by decide +kernel, entries_sound {} _ (by decide +kernel)⟩

/-- Labels are values of the type behind the discriminant, no two are alike, and a value selects
the case that has it as a label. -/
theorem unions_wellLabelled (options : ParseOptions) (text : String)
    (ok : (ofText options text).hasErrors = false) :
    ∀ e ∈ (ofText options text).model.entries, ∀ u, e.kind = .union u →
      u.WellLabelled (ofText options text).symbols (ofText options text).model :=
  fun _ mem _ union => (clean_of_unfailed ok).wellLabelled mem union

theorem unions_wellLabelled_of_typedef :
    ∃ e ∈ (ofText {} "typedef long L; union U switch (L) { case 1: long a; };").model.entries,
      ∃ u, e.kind = .union u ∧ u.WellLabelled
        (ofText {} "typedef long L; union U switch (L) { case 1: long a; };").symbols
        (ofText {} "typedef long L; union U switch (L) { case 1: long a; };").model := by
  have last : ⟨2, "U", .union ⟨.named 1, [⟨[.int 1], false, ⟨"a", .primitive .long, [], false,
      false⟩⟩]⟩⟩ ∈ (ofText {} "typedef long L; union U switch (L) { case 1: long a; };"
      ).model.entries := by
    cbv
    exact .tail _ (.head _)
  exact ⟨_, last, _, rfl, unions_wellLabelled {} _ (by decide +kernel) _ last _ rfl⟩

/-- A type that is referred to has an entry unless a state member defines it in place. -/
theorem entry_isSome_iff (options : ParseOptions) (text : String)
    (ok : (ofText options text).hasErrors = false) :
    ∀ e ∈ (ofText options text).model.entries, ∀ id ∈ e.kind.ids,
      ((ofText options text).model.get? id).isSome = true ↔
        ¬ StateDefined (ofText options text).specification (ofText options text).symbols id :=
  fun _ mem _ occurs => (clean_of_unfailed ok).closed mem occurs

/-- The struct of the state member `s` is known by its name, and has no entry. -/
theorem entry_missing_of_state :
    ∃ e ∈ (ofText {} "valuetype V { public struct S { long a; } s; }; struct T { V::S x; };"
      ).model.entries, ∃ id ∈ e.kind.ids,
      (ofText {} "valuetype V { public struct S { long a; } s; }; struct T { V::S x; };"
        ).model.get? id = none ∧
      StateDefined
        (ofText {} "valuetype V { public struct S { long a; } s; }; struct T { V::S x; };"
          ).specification
        (ofText {} "valuetype V { public struct S { long a; } s; }; struct T { V::S x; };"
          ).symbols id := by
  have last : ⟨3, "T", .struct ⟨none, [⟨"x", .named 2, [], false, false⟩]⟩⟩ ∈
      (ofText {} "valuetype V { public struct S { long a; } s; }; struct T { V::S x; };"
        ).model.entries := by
    cbv
    exact .tail _ (.head _)
  have none : (ofText {} "valuetype V { public struct S { long a; } s; }; struct T { V::S x; };"
      ).model.get? 2 = none := by decide +kernel
  refine ⟨_, last, 2, by decide, none, ?_⟩
  by_contra other
  have found := (entry_isSome_iff {} _ (by decide +kernel) _ last 2 (by decide)).mpr other
  rw [none] at found
  cases found

end Document

/-! Bitmasks. -/

open Layout Rules

/-- The flags have bits of their own, all of them within the bound. -/
structure BitmaskLayout.Fits (b : BitmaskLayout) : Prop where
  distinct : (b.flags.map (·.position)).Nodup
  inside : ∀ f ∈ b.flags, f.position < b.bitBound

/-- There is a bit bound among the annotations, and it is no number: it was written without an
argument, or with one that is no integer. -/
def BoundUntold (as : List AnnotationUse) : Prop :=
  (findAnnotation? as "bit_bound").isSome = true ∧ annotationInt? as "bit_bound" = none

/-- The bitmask of the symbol is declared with a bit bound that is no number. -/
def DeclaredUntold (s : Specification) (t : SymbolTable) (id : SymbolId) : Prop :=
  ∃ as b, Laid.bitmask as b ∈ s.laid ∧ t.settledAt? b.name = some id ∧ BoundUntold as

namespace Layout

variable {as : List AnnotationUse} {values : List Enumerator}

theorem bitBound_of_told {v : Int} (told : annotationInt? as "bit_bound" = some v) (lower : 1 ≤ v)
    (upper : v ≤ maxBits) : (bitBound as : Int) = v := by
  have limit : maxBits = 64 := rfl
  have small : v < UInt32.size := by
    have size : UInt32.size = 4294967296 := rfl
    omega
  simp only [bitBound, told]
  rw [if_pos ⟨by omega, small⟩]
  omega

theorem bitBound_of_untold (untold : annotationInt? as "bit_bound" = none) :
    bitBound as = defaultBitBound := by
  simp only [bitBound, untold]

/-- Flags stand where they were put, when that is somewhere in range. -/
theorem positions_flags {bound : Int} (small : bound ≤ 64)
    (fit : PositionsFit bound (flagPositions 0 values)) :
    (flags values).map (fun f => (f.position : Int)) = flagPositions 0 values := by
  have size : UInt32.size = 4294967296 := rfl
  have kept (p : Int) (mem : p ∈ flagPositions 0 values) :
      ((if 0 ≤ p then word p.toNat else 0 : Nat) : Int) = p := by
    have inside := fit.inside p mem
    rw [if_pos inside.1, word, if_pos (by omega)]
    omega
  have zipped : (values.zip (flagPositions 0 values)).map (·.2) = flagPositions 0 values :=
    List.map_snd_zip (by simp)
  calc (flags values).map (fun f => (f.position : Int))
      = ((values.zip (flagPositions 0 values)).map (·.2)).map
          (fun p => ((if 0 ≤ p then word p.toNat else 0 : Nat) : Int)) := by
        rw [flags, List.map_map, List.map_map]
        rfl
    _ = (flagPositions 0 values).map id := by
        rw [zipped]
        exact List.map_congr_left kept
    _ = flagPositions 0 values := List.map_id _

theorem fits_of_positionsFit {bound : Nat} (small : bound ≤ 64)
    (fit : PositionsFit bound (flagPositions 0 values)) :
    BitmaskLayout.Fits ⟨bound, flags values⟩ := by
  have positions := positions_flags (by omega) fit
  constructor
  · have distinct := fit.distinct
    rw [← positions] at distinct
    exact List.Nodup.of_map (fun n : Nat => (n : Int)) (by rw [List.map_map]; exact distinct)
  · intro f mem
    have inside := fit.inside f.position (by
      rw [← positions]
      exact List.mem_map.mpr ⟨f, mem, rfl⟩)
    exact Int.ofNat_lt.mp inside.2

/-- The layout of a bitmask that keeps the rules. -/
theorem bitmask_fits (fit : FlagsFit as values) :
    1 ≤ bitBound as ∧ bitBound as ≤ 64 ∧
      (¬ BoundUntold as → BitmaskLayout.Fits ⟨bitBound as, flags values⟩) := by
  have limit : maxBits = 64 := rfl
  cases told : annotationInt? as "bit_bound" with
  | some v =>
    obtain ⟨lower, upper, positions⟩ := fit.told v told
    have bound := bitBound_of_told told lower upper
    rw [← bound] at positions
    exact ⟨by omega, by omega, fun _ => fits_of_positionsFit (by omega) positions⟩
  | none =>
    rw [bitBound_of_untold told]
    refine ⟨by decide, by decide, fun known => fits_of_positionsFit (by decide) (fit.untold ?_)⟩
    refine Option.not_isSome_iff_eq_none.mp fun present => known ⟨present, told⟩

end Layout

theorem Clean.bitmask_fits {parsed s : Specification} {t : SymbolTable} (clean : Clean parsed s t)
    {e : Entry} (mem : e ∈ (buildModel s t).entries) {layout : BitmaskLayout}
    (kind : e.kind = .bitmask layout) :
    1 ≤ layout.bitBound ∧ layout.bitBound ≤ 64 ∧ (¬ DeclaredUntold s t e.id → layout.Fits) := by
  rcases describes_of_mem mem with ⟨x, inside, entry⟩ | ⟨-, other⟩
  · have describes := entry.describes
    rw [kind] at describes
    cases x with
    | bitmask as b =>
      obtain rfl := EntryKind.bitmask.inj describes
      obtain ⟨lower, upper, fits⟩ := Layout.bitmask_fits (clean.checked _ inside).2
      exact ⟨lower, upper, fun known => fits fun untold =>
        known ⟨as, b, inside, entry.place, untold⟩⟩
    | bitset _ => obtain ⟨_, eq⟩ := describes; cases eq
    | const _ => obtain ⟨_, _, eq⟩ := describes; cases eq
    | closed _ _ => obtain ⟨_, eq⟩ := describes; cases eq
    | _ => cases describes
  · rw [kind] at other
    cases other

namespace Document

/-- Bit bounds are in range, and flags fit them. Only where a bitmask is declared with a bit bound
that is no number, its flags may stand anywhere. -/
theorem bitmasks_fit (options : ParseOptions) (text : String)
    (ok : (ofText options text).hasErrors = false) :
    ∀ e ∈ (ofText options text).model.entries, ∀ layout, e.kind = .bitmask layout →
      1 ≤ layout.bitBound ∧ layout.bitBound ≤ 64 ∧
        (¬ DeclaredUntold (ofText options text).specification (ofText options text).symbols e.id →
          layout.Fits) :=
  fun _ mem _ kind => (clean_of_unfailed ok).bitmask_fits mem kind

/-- Next to a bit bound without an argument, a flag stands outside the bits of its bitmask. -/
theorem flag_outside_of_untold :
    (ofText {} "@bit_bound bitmask M { @position(40) a };").hasErrors = false ∧
      ∃ e ∈ (ofText {} "@bit_bound bitmask M { @position(40) a };").model.entries,
        e.kind = .bitmask ⟨32, [⟨"a", 40⟩]⟩ ∧
        DeclaredUntold (ofText {} "@bit_bound bitmask M { @position(40) a };").specification
          (ofText {} "@bit_bound bitmask M { @position(40) a };").symbols e.id := by
  have ok : (ofText {} "@bit_bound bitmask M { @position(40) a };").hasErrors = false := by
    decide +kernel
  have mem : ⟨1, "M", .bitmask ⟨32, [⟨"a", 40⟩]⟩⟩ ∈
      (ofText {} "@bit_bound bitmask M { @position(40) a };").model.entries := by
    cbv
    exact .head _
  refine ⟨ok, _, mem, rfl, ?_⟩
  by_contra known
  have inside := ((bitmasks_fit {} _ ok _ mem _ rfl).2.2 known).inside ⟨"a", 40⟩ (by simp)
  exact absurd inside (by decide)

end Document

end Idl
