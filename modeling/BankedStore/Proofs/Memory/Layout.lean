import BankedStore.Memory
import BankedStore.Proofs.Bank.Slots
import BankedStore.Proofs.Element.RoundTrip
import BankedStore.Proofs.Memory.Shape

/-!
# How a memory lays out its entries

`Sound` is the invariant of a memory: its geometry is the validated one, every
bank has a slot for each slice of its entries, and every slot holds a slice of
the right width with clear padding.  In a sound memory the word of an entry is
the join of its slices, reading inside the memory always succeeds, and each
operation is described by the slices that it changes.
-/

namespace BankedStore.Memory

variable {t : ElementType}

/-- A bank of the memory, or an empty one past the last. -/
def bankAt (m : Memory t) (i : Nat) : Bank :=
  m.banks[i]?.getD ⟨#[]⟩

def sliceAt (m : Memory t) (l : Location) (s : Nat) : Bits :=
  (m.bankAt l.bank).slotAt (l.index * m.geometry.byteEnables + s)

def wordAt (m : Memory t) (l : Location) : Bits :=
  Bits.concat ((List.range m.geometry.byteEnables).map (m.sliceAt l))

structure Sound (m : Memory t) : Prop where
  valid : m.config.validate t.width = .ok m.geometry
  consistent : m.geometry.Consistent
  banks : m.banks.size = m.geometry.bankCount
  slots : ∀ i < m.geometry.bankCount,
    (m.bankAt i).slots = m.geometry.entriesPerBank * m.geometry.byteEnables
  slices : ∀ i < m.geometry.bankCount, ∀ slot < (m.bankAt i).slots,
    ((m.bankAt i).slotAt slot).width = m.geometry.sliceWidth ∧
      ((m.bankAt i).slotAt slot).WellFormed

namespace Sound

variable {m : Memory t}

theorem wordWidth (h : m.Sound) : m.geometry.wordWidth = t.width :=
  Geometry.wordWidth_of_validate h.valid

theorem width_lt (h : m.Sound) : t.width < Size.limit :=
  h.wordWidth ▸ h.consistent.width_lt

theorem slots_lt (h : m.Sound) {i : Nat} (hi : i < m.geometry.bankCount) :
    (m.bankAt i).slots < Size.limit := by
  rw [h.slots i hi]
  exact h.consistent.slots_lt

theorem window_le (h : m.Sound) {l : Location} (hl : m.geometry.contains l) :
    l.index * m.geometry.byteEnables + m.geometry.byteEnables ≤ (m.bankAt l.bank).slots := by
  obtain ⟨hindex, hbank⟩ := Geometry.contains_iff.mp hl
  rw [h.slots l.bank hbank]
  exact Geometry.window_le hindex

theorem bank_eq_ok (h : m.Sound) {i : Nat} (hi : i < m.geometry.bankCount) :
    m.bank i = .ok (m.bankAt i) := by
  have hi : i < m.banks.size := by rw [h.banks]; exact hi
  simp [bank, bankAt, hi]

theorem expectInside_eq_ok {l : Location} (hl : m.geometry.contains l) :
    m.expectInside l = .ok () := by
  rw [expectInside, if_pos hl]

/-! ## Slices and words -/

theorem width_sliceAt (h : m.Sound) {l : Location} {s : Nat} (hl : m.geometry.contains l)
    (hs : s < m.geometry.byteEnables) : (m.sliceAt l s).width = m.geometry.sliceWidth := by
  have hwindow := h.window_le hl
  exact (h.slices l.bank (Geometry.contains_iff.mp hl).2 _ (by omega)).1

theorem wellFormed_sliceAt (h : m.Sound) {l : Location} {s : Nat} (hl : m.geometry.contains l)
    (hs : s < m.geometry.byteEnables) : (m.sliceAt l s).WellFormed := by
  have hwindow := h.window_le hl
  exact (h.slices l.bank (Geometry.contains_iff.mp hl).2 _ (by omega)).2

private theorem mem_slices (h : m.Sound) {l : Location} (hl : m.geometry.contains l) :
    ∀ part ∈ (List.range m.geometry.byteEnables).map (m.sliceAt l),
      part.width = m.geometry.sliceWidth ∧ part.WellFormed := by
  intro part hpart
  obtain ⟨s, hs, rfl⟩ := List.mem_map.mp hpart
  rw [List.mem_range] at hs
  exact ⟨h.width_sliceAt hl hs, h.wellFormed_sliceAt hl hs⟩

theorem width_wordAt (h : m.Sound) {l : Location} (hl : m.geometry.contains l) :
    (m.wordAt l).width = t.width := by
  rw [wordAt, Bits.width_concat_of_forall fun p hp => (h.mem_slices hl p hp).1,
    List.length_map, List.length_range, h.consistent.slices, h.wordWidth]

theorem wellFormed_wordAt (h : m.Sound) {l : Location} (hl : m.geometry.contains l) :
    (m.wordAt l).WellFormed :=
  Bits.wellFormed_concat fun part hpart => (h.mem_slices hl part hpart).2

theorem slice_lt (h : m.Sound) {i : Nat} (hi : i < t.width) :
    i / m.geometry.sliceWidth < m.geometry.byteEnables := by
  rw [Nat.div_lt_iff_lt_mul h.consistent.sliceWidth_pos, h.consistent.slices, h.wordWidth]
  exact hi

theorem testBit_wordAt (h : m.Sound) {l : Location} (hl : m.geometry.contains l) {i : Nat}
    (hi : i < t.width) :
    (m.wordAt l).toNat.testBit i =
      (m.sliceAt l (i / m.geometry.sliceWidth)).toNat.testBit (i % m.geometry.sliceWidth) := by
  rw [wordAt, Bits.testBit_toNat_concat h.consistent.sliceWidth_pos (h.mem_slices hl),
    List.getElem?_map, List.getElem?_range (h.slice_lt hi)]
  rfl

/-! ## Reads -/

theorem slice_eq_ok (h : m.Sound) {l : Location} {s : Nat} (hl : m.geometry.contains l)
    (hs : s < m.geometry.byteEnables) : m.slice l s = .ok (m.sliceAt l s) := by
  obtain ⟨hindex, hbank⟩ := Geometry.contains_iff.mp hl
  have hwindow := h.window_le hl
  rw [slice, expectInside_eq_ok hl, if_pos hs, h.bank_eq_ok hbank,
    h.consistent.slot_eq_ok hindex hs]
  exact Bank.slice_eq_ok (by omega)

theorem readBits_eq_ok (h : m.Sound) {l : Location} (hl : m.geometry.contains l) :
    m.readBits l = .ok (m.wordAt l) := by
  obtain ⟨hindex, hbank⟩ := Geometry.contains_iff.mp hl
  rw [readBits, expectInside_eq_ok hl, h.consistent.slot_eq_ok hindex h.consistent.enables_pos,
    h.bank_eq_ok hbank]
  change (do return Bits.concat (← (m.bankAt l.bank).entry _ _)) = _
  rw [Nat.add_zero, Bank.entry_eq_ok (h.window_le hl) (h.slots_lt hbank)]
  rfl

theorem exists_read_eq_ok (h : m.Sound) {l : Location} (hl : m.geometry.contains l) :
    ∃ value, m.read l = .ok value ∧ Value.pack t value = m.wordAt l := by
  obtain ⟨value, hvalue, hpack⟩ :=
    Value.readsBack t h.width_lt (h.width_wordAt hl) (h.wellFormed_wordAt hl)
  refine ⟨value, ?_, hpack⟩
  rw [read, h.readBits_eq_ok hl]
  exact hvalue

end Sound

end BankedStore.Memory
