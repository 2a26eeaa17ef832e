import Mathlib.Data.Set.Lattice
import Mathlib.Order.CompletePartialOrder
import BankedStore.Proofs.Memory.Shape

/-!
# The slots of a bank

A configuration validates exactly when its sizes are positive and both splits come
out even, and its geometry then has the sizes it started from.  When the slots of a
bank can be counted, the slices of its entries and its slots correspond one to one.
Entry after entry takes a run of neighbouring slots, so that the runs neither
overlap nor leave a slot out.
-/

namespace BankedStore

theorem Config.validate_eq_error_iff {c : Config} {wordWidth : Nat} {e : Rejection} :
    c.validate wordWidth = .error e ↔ c.firstFailing wordWidth = some e := by
  rw [Config.validate_eq_firstFailing]
  cases c.firstFailing wordWidth <;> simp

namespace Geometry

variable {g : Geometry}

def slotsOf (g : Geometry) (index : Nat) : Set Nat :=
  {s | ∃ slice < g.byteEnables, g.slot index slice = .ok s}

structure Divides (g : Geometry) (c : Config) (wordWidth : Nat) : Prop where
  entries_pos : 0 < g.entriesPerBank
  banks_pos : 0 < g.bankCount
  enables_pos : 0 < g.byteEnables
  width_pos : 0 < g.wordWidth
  slice_pos : 0 < g.sliceWidth
  banks : g.bankCount = c.bankCount
  enables : g.byteEnables = c.byteEnables
  width : g.wordWidth = wordWidth
  entries : g.entriesPerBank * g.bankCount = c.totalEntries
  slices : g.sliceWidth * g.byteEnables = wordWidth
  counted : c.totalEntries < Size.limit → g.totalEntries = .ok c.totalEntries

structure Tiled (g : Geometry) : Prop where
  counted : g.slotsPerBank = .ok (g.entriesPerBank * g.byteEnables)
  bijective : Set.BijOn (fun slice : Nat × Nat => g.slot slice.1 slice.2)
    (Set.Iio g.entriesPerBank ×ˢ Set.Iio g.byteEnables)
    (Except.ok '' Set.Iio (g.entriesPerBank * g.byteEnables))
  run : ∀ index < g.entriesPerBank, ∃ first, g.slot index 0 = .ok first ∧
    g.slotsOf index = Set.Ico first (first + g.byteEnables)
  start : g.slot 0 0 = .ok 0
  next : ∀ index, index + 1 < g.entriesPerBank → ∃ first, g.slot index 0 = .ok first ∧
    g.slot (index + 1) 0 = .ok (first + g.byteEnables)
  disjoint : ∀ index < g.entriesPerBank, ∀ other < g.entriesPerBank, index ≠ other →
    Disjoint (g.slotsOf index) (g.slotsOf other)
  covering : ⋃ index ∈ Set.Iio g.entriesPerBank, g.slotsOf index =
    Set.Iio (g.entriesPerBank * g.byteEnables)

theorem divides_of_validate {c : Config} {wordWidth : Nat} (h : c.validate wordWidth = .ok g) :
    g.Divides c wordWidth := by
  obtain ⟨htotal, hbanks, henables, hword, hsplit, hslices, rfl⟩ :=
    Config.validate_eq_ok_iff.mp h
  have hentries := Nat.div_mul_cancel hsplit
  exact {
    entries_pos := Nat.div_pos (Nat.le_of_dvd htotal hsplit) hbanks
    banks_pos := hbanks
    enables_pos := henables
    width_pos := hword
    slice_pos := Nat.div_pos (Nat.le_of_dvd hword hslices) henables
    banks := rfl
    enables := rfl
    width := rfl
    entries := hentries
    slices := Nat.div_mul_cancel hslices
    counted := fun hfits => by simp [totalEntries, Size.mul, hentries, hfits] }

section Slots

variable (hpos : 0 < g.byteEnables) (hfits : g.entriesPerBank * g.byteEnables < Size.limit)
include hpos hfits

theorem mem_slotsOf_iff {index s : Nat} (hindex : index < g.entriesPerBank) :
    s ∈ g.slotsOf index ↔ s / g.byteEnables = index := by
  constructor
  · rintro ⟨slice, hslice, hslot⟩
    rw [slot_eq_ok_of_fits hfits hindex hslice] at hslot
    cases hslot
    exact mul_add_div_of_lt hslice
  · rintro rfl
    refine ⟨s % g.byteEnables, Nat.mod_lt s hpos, ?_⟩
    rw [slot_eq_ok_of_fits hfits hindex (Nat.mod_lt s hpos), Nat.div_add_mod']

omit hpos in
theorem mapsTo_slot :
    Set.MapsTo (fun slice : Nat × Nat => g.slot slice.1 slice.2)
      (Set.Iio g.entriesPerBank ×ˢ Set.Iio g.byteEnables)
      (Except.ok '' Set.Iio (g.entriesPerBank * g.byteEnables)) := by
  rintro ⟨index, slice⟩ ⟨hindex, hslice⟩
  have hinside := Nat.lt_of_lt_of_le (Nat.add_lt_add_left hslice _) (window_le hindex)
  exact ⟨_, hinside, (slot_eq_ok_of_fits hfits hindex hslice).symm⟩

omit hpos in
theorem injOn_slot :
    Set.InjOn (fun slice : Nat × Nat => g.slot slice.1 slice.2)
      (Set.Iio g.entriesPerBank ×ˢ Set.Iio g.byteEnables) := by
  rintro ⟨index, slice⟩ ⟨hindex, hslice⟩ ⟨index', slice'⟩ ⟨hindex', hslice'⟩ hsame
  dsimp only at hsame
  rw [slot_eq_ok_of_fits hfits hindex hslice, slot_eq_ok_of_fits hfits hindex' hslice',
    Except.ok.injEq] at hsame
  have hentry : index = index' := by
    rw [← mul_add_div_of_lt (a := index) hslice, hsame, mul_add_div_of_lt hslice']
  subst hentry
  simpa using hsame

theorem surjOn_slot :
    Set.SurjOn (fun slice : Nat × Nat => g.slot slice.1 slice.2)
      (Set.Iio g.entriesPerBank ×ˢ Set.Iio g.byteEnables)
      (Except.ok '' Set.Iio (g.entriesPerBank * g.byteEnables)) := by
  rintro _ ⟨s, hs, rfl⟩
  have hindex : s / g.byteEnables < g.entriesPerBank := (Nat.div_lt_iff_lt_mul hpos).mpr hs
  have hslice : s % g.byteEnables < g.byteEnables := Nat.mod_lt s hpos
  refine ⟨(s / g.byteEnables, s % g.byteEnables), ⟨hindex, hslice⟩, ?_⟩
  dsimp only
  rw [slot_eq_ok_of_fits hfits hindex hslice, Nat.div_add_mod']

theorem tiled : g.Tiled := by
  have hfirst : ∀ index < g.entriesPerBank, g.slot index 0 = .ok (index * g.byteEnables) :=
    fun index hindex => slot_eq_ok_of_fits hfits hindex hpos
  exact {
    counted := Size.mul_eq_ok hfits
    bijective := ⟨mapsTo_slot hfits, injOn_slot hfits, surjOn_slot hpos hfits⟩
    run := fun index hindex => by
      refine ⟨_, hfirst index hindex, Set.ext fun s => ?_⟩
      rw [mem_slotsOf_iff hpos hfits hindex, Nat.div_eq_iff hpos, Set.mem_Ico]
      omega
    start := by simp [slot, Size.mul, Size.add, Size.limit, bind, Except.bind, UInt64.size]
    next := fun index hnext =>
      ⟨_, hfirst index (by omega), by rw [hfirst _ hnext, Nat.succ_mul]⟩
    disjoint := fun index hindex other hother hne => by
      rw [Set.disjoint_left]
      intro s hs hs'
      rw [mem_slotsOf_iff hpos hfits hindex] at hs
      rw [mem_slotsOf_iff hpos hfits hother] at hs'
      exact hne (hs.symm.trans hs')
    covering := by
      ext s
      simp only [Set.mem_iUnion, Set.mem_Iio, exists_prop]
      rw [← Nat.div_lt_iff_lt_mul hpos]
      constructor
      · rintro ⟨index, hindex, hs⟩
        rw [(mem_slotsOf_iff hpos hfits hindex).mp hs]
        exact hindex
      · exact fun hs => ⟨_, hs, (mem_slotsOf_iff hpos hfits hs).mpr rfl⟩ }

end Slots

/-- A configuration validates exactly when no size is zero and both splits come out even, and
otherwise the first check that fails is reported.  The sizes of its geometry multiply to its own.
When the slots of a bank can be counted, they correspond one to one to the slices of its entries,
which take one run of slots after the other. -/
theorem validate_tiles (c : Config) (wordWidth : Nat) :
    ((∃ g, c.validate wordWidth = .ok g) ↔
      0 < c.totalEntries ∧ 0 < c.bankCount ∧ 0 < c.byteEnables ∧ 0 < wordWidth ∧
        c.bankCount ∣ c.totalEntries ∧ c.byteEnables ∣ wordWidth) ∧
    (∀ e, c.validate wordWidth = .error e ↔ c.firstFailing wordWidth = some e) ∧
    ∀ g, c.validate wordWidth = .ok g →
      g.Divides c wordWidth ∧
        (g.entriesPerBank * g.byteEnables < Size.limit → g.Tiled) := by
  refine ⟨?_, fun _ => Config.validate_eq_error_iff, fun g h => ?_⟩
  · simp [Config.validate_eq_ok_iff]
  · have hdivides := divides_of_validate h
    exact ⟨hdivides, tiled hdivides.enables_pos⟩

theorem validate_tiles_largest :
    ∃ g, (⟨(2 ^ 64 - 1) / 3, 1, 3⟩ : Config).validate 12 = .ok g ∧
      g.entriesPerBank * g.byteEnables < Size.limit ∧ g.Tiled ∧
      g.slot ((2 ^ 64 - 1) / 3 - 1) 2 = .ok (2 ^ 64 - 2) := by
  have hvalid : (⟨(2 ^ 64 - 1) / 3, 1, 3⟩ : Config).validate 12 =
      .ok ⟨(2 ^ 64 - 1) / 3, 1, 3, 12⟩ := by decide
  obtain ⟨-, -, htiles⟩ := validate_tiles ⟨(2 ^ 64 - 1) / 3, 1, 3⟩ 12
  exact ⟨_, hvalid, by decide, (htiles _ hvalid).2 (by decide), by decide⟩

end Geometry

end BankedStore
