import Mathlib.Algebra.Order.Ring.Nat
import BankedStore.Geometry

/-!
# Shapes that validate

A validated configuration splits its entries evenly over the banks and its words
evenly into slices.  When the entries of the memory, the bits of a word and the
slots of a bank can each be counted, no slot computation overflows.
-/

namespace BankedStore

theorem Config.validate_eq_ok_iff {c : Config} {wordWidth : Nat} {g : Geometry} :
    c.validate wordWidth = .ok g ↔
      0 < c.totalEntries ∧ 0 < c.bankCount ∧ 0 < c.byteEnables ∧ 0 < wordWidth ∧
        c.bankCount ∣ c.totalEntries ∧ c.byteEnables ∣ wordWidth ∧
        g = ⟨c.totalEntries / c.bankCount, c.bankCount, c.byteEnables, wordWidth⟩ := by
  simp only [Nat.dvd_iff_mod_eq_zero, Nat.pos_iff_ne_zero]
  unfold validate
  constructor
  · intro h
    split at h <;> try contradiction
    split at h <;> try contradiction
    split at h <;> try contradiction
    split at h <;> try contradiction
    split at h <;> try contradiction
    split at h <;> try contradiction
    rename_i hentries hbanks henables hwidth hsplit hslices
    cases h
    exact ⟨hentries, hbanks, henables, hwidth, not_not.mp hsplit, not_not.mp hslices, rfl⟩
  · rintro ⟨hentries, hbanks, henables, hwidth, hsplit, hslices, rfl⟩
    simp [hentries, hbanks, henables, hwidth, hsplit, hslices]

/-- What a configuration must meet, in the order of the checks, with the rejection of each. -/
def Config.checks (c : Config) (wordWidth : Nat) : List (Bool × Rejection) :=
  [(0 < c.totalEntries, .zeroEntries),
    (0 < c.bankCount, .zeroBanks),
    (0 < c.byteEnables, .zeroByteEnables),
    (0 < wordWidth, .zeroWidth),
    (c.totalEntries % c.bankCount = 0, .unevenBanks c.totalEntries c.bankCount),
    (wordWidth % c.byteEnables = 0, .unevenSlices wordWidth c.byteEnables)]

def Config.firstFailing (c : Config) (wordWidth : Nat) : Option Rejection :=
  ((c.checks wordWidth).find? fun check => !check.1).map Prod.snd

theorem Config.validate_eq_firstFailing (c : Config) (wordWidth : Nat) :
    c.validate wordWidth =
      match c.firstFailing wordWidth with
      | some e => .error e
      | none =>
          .ok ⟨c.totalEntries / c.bankCount, c.bankCount, c.byteEnables, wordWidth⟩ := by
  unfold validate firstFailing checks
  by_cases hentries : c.totalEntries = 0
  · simp [hentries]
  by_cases hbanks : c.bankCount = 0
  · simp [hentries, hbanks, Nat.pos_iff_ne_zero]
  by_cases henables : c.byteEnables = 0
  · simp [hentries, hbanks, henables, Nat.pos_iff_ne_zero]
  by_cases hwidth : wordWidth = 0
  · simp [hentries, hbanks, henables, hwidth, Nat.pos_iff_ne_zero]
  by_cases hsplit : c.totalEntries % c.bankCount = 0
  · by_cases hslices : wordWidth % c.byteEnables = 0 <;>
      simp [hentries, hbanks, henables, hwidth, hsplit, hslices, Nat.pos_iff_ne_zero]
  · simp [hentries, hbanks, henables, hwidth, hsplit, Nat.pos_iff_ne_zero]

theorem mul_add_div_of_lt {a b c : Nat} (h : b < c) : (a * c + b) / c = a := by
  rw [Nat.add_comm, Nat.add_mul_div_right _ _ (Nat.zero_lt_of_lt h), Nat.div_eq_of_lt h,
    Nat.zero_add]

namespace Geometry

structure Consistent (g : Geometry) : Prop where
  entries_pos : 0 < g.entriesPerBank
  banks_pos : 0 < g.bankCount
  enables_pos : 0 < g.byteEnables
  sliceWidth_pos : 0 < g.sliceWidth
  slices : g.byteEnables * g.sliceWidth = g.wordWidth
  entries_lt : g.entriesPerBank * g.bankCount < Size.limit
  width_lt : g.wordWidth < Size.limit
  slots_lt : g.entriesPerBank * g.byteEnables < Size.limit

theorem consistent_of_validate {c : Config} {wordWidth : Nat} {g : Geometry}
    (h : c.validate wordWidth = .ok g) (hentries : c.totalEntries < Size.limit)
    (hwidth : wordWidth < Size.limit)
    (hslots : g.entriesPerBank * g.byteEnables < Size.limit) : g.Consistent := by
  obtain ⟨htotal, hbanks, henables, hword, hsplit, hslices, rfl⟩ :=
    Config.validate_eq_ok_iff.mp h
  exact {
    entries_pos := Nat.div_pos (Nat.le_of_dvd htotal hsplit) hbanks
    banks_pos := hbanks
    enables_pos := henables
    sliceWidth_pos := Nat.div_pos (Nat.le_of_dvd hword hslices) henables
    slices := Nat.mul_div_cancel' hslices
    entries_lt := by simpa [Nat.div_mul_cancel hsplit] using hentries
    width_lt := hwidth
    slots_lt := hslots }

theorem consistent_of_fits {c : Config} {wordWidth : Nat} {g : Geometry}
    (h : c.validate wordWidth = .ok g) (hfits : c.totalEntries * wordWidth < Size.limit) :
    g.Consistent := by
  obtain ⟨htotal, hbanks, henables, hword, hsplit, hslices, rfl⟩ :=
    Config.validate_eq_ok_iff.mp h
  refine consistent_of_validate h ?_ ?_ ?_
  · exact Nat.lt_of_le_of_lt (Nat.le_mul_of_pos_right _ hword) hfits
  · exact Nat.lt_of_le_of_lt (Nat.le_mul_of_pos_left _ htotal) hfits
  · refine Nat.lt_of_le_of_lt ?_ hfits
    calc
      c.totalEntries / c.bankCount * c.byteEnables
          ≤ c.totalEntries * c.byteEnables := Nat.mul_le_mul_right _ (Nat.div_le_self ..)
      _ ≤ c.totalEntries * wordWidth := Nat.mul_le_mul_left _ (Nat.le_of_dvd hword hslices)

theorem wordWidth_of_validate {c : Config} {wordWidth : Nat} {g : Geometry}
    (h : c.validate wordWidth = .ok g) : g.wordWidth = wordWidth := by
  obtain ⟨-, -, -, -, -, -, rfl⟩ := Config.validate_eq_ok_iff.mp h
  rfl

theorem contains_iff {g : Geometry} {l : Location} :
    g.contains l = true ↔ l.index < g.entriesPerBank ∧ l.bank < g.bankCount := by
  simp [contains]

theorem check_eq_ok_iff {g : Geometry} {l : Location} :
    g.check l = .ok () ↔ g.contains l = true := by
  rw [contains_iff, check]
  by_cases hbank : g.bankCount ≤ l.bank
  · simp [hbank]
  · by_cases hindex : g.entriesPerBank ≤ l.index
    · simp [hbank, hindex]
    · simp [hbank, hindex]
      omega

theorem window_le {g : Geometry} {index : Nat} (hindex : index < g.entriesPerBank) :
    index * g.byteEnables + g.byteEnables ≤ g.entriesPerBank * g.byteEnables := by
  rw [← Nat.succ_mul]
  exact Nat.mul_le_mul_right _ hindex

theorem slot_eq_ok_of_fits {g : Geometry}
    (hfits : g.entriesPerBank * g.byteEnables < Size.limit) {index slice : Nat}
    (hindex : index < g.entriesPerBank) (hslice : slice < g.byteEnables) :
    g.slot index slice = .ok (index * g.byteEnables + slice) := by
  have hwindow := window_le hindex
  exact Size.mul_add_eq_ok (by omega)

namespace Consistent

variable {g : Geometry}

theorem sliceWidth_dvd (h : g.Consistent) : g.sliceWidth ∣ g.wordWidth :=
  ⟨g.byteEnables, by rw [Nat.mul_comm, h.slices]⟩

theorem wordWidth_div (h : g.Consistent) : g.wordWidth / g.sliceWidth = g.byteEnables := by
  rw [← h.slices, Nat.mul_div_cancel _ h.sliceWidth_pos]

theorem slot_eq_ok (h : g.Consistent) {index slice : Nat} (hindex : index < g.entriesPerBank)
    (hslice : slice < g.byteEnables) :
    g.slot index slice = .ok (index * g.byteEnables + slice) :=
  slot_eq_ok_of_fits h.slots_lt hindex hslice

end Consistent

end Geometry

end BankedStore
