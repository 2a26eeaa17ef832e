import BankedStore.Proofs.Memory.Shadow

/-!
# Whole words

A write under the full mask puts a word in place of the stored one and touches no
other entry.  Storing a value is such a write of the value's bits, and every word
of the right width is the bits of some value.
-/

namespace BankedStore

theorem splice_all {sliceWidth slices old new : Nat} (hpos : 0 < sliceWidth)
    (hold : old < 2 ^ (slices * sliceWidth)) (hnew : new < 2 ^ (slices * sliceWidth)) :
    splice sliceWidth slices (.all slices) old new = new := by
  apply Nat.eq_of_testBit_eq
  intro i
  rw [testBit_splice hpos, SliceMask.allows_all]
  by_cases hi : i / sliceWidth < slices
  · simp [hi]
  · rw [Nat.div_lt_iff_lt_mul hpos] at hi
    have hpadding : 2 ^ (slices * sliceWidth) ≤ 2 ^ i :=
      Nat.pow_le_pow_right (by omega) (by omega)
    rw [if_neg fun h => hi ((Nat.div_lt_iff_lt_mul hpos).mp h.1),
      Nat.testBit_lt_two_pow (by omega), Nat.testBit_lt_two_pow (by omega)]

namespace Memory

variable {t : ElementType} {m : Memory t}

/-- The memory with a word in place of the one at `l`, the same memory where that fails. -/
def put (m : Memory t) (l : Location) (word : Bits) : Memory t :=
  m.after (.writeBits l word (.all m.geometry.byteEnables))

theorem Sound.put (h : m.Sound) (l : Location) (word : Bits) : (m.put l word).Sound :=
  (after_keeps h _).1

theorem geometry_put (h : m.Sound) (l : Location) (word : Bits) :
    (m.put l word).geometry = m.geometry :=
  (after_keeps h _).2.2

theorem wordAt_put (h : m.Sound) {l l' : Location} {word : Bits} (hl : m.geometry.contains l)
    (hwidth : word.width = t.width) (hwf : word.WellFormed) (hl' : m.geometry.contains l') :
    (m.put l word).wordAt l' = if l' = l then word else m.wordAt l' := by
  have hallowed : (Access.writeBits l word (.all m.geometry.byteEnables) : Access t).Allowed
      m.geometry := ⟨hl, hwidth.trans h.wordWidth.symm, rfl⟩
  have hwritten : m.Written l word (.all m.geometry.byteEnables) (m.put l word) :=
    changed_after h hallowed
  have hl'' : (m.put l word).geometry.contains l' := by rw [geometry_put h]; exact hl'
  refine Bits.toNat_injective ?_ ?_
  · rw [hwritten.sound.width_wordAt hl'']
    split
    · exact hwidth.symm
    · exact (h.width_wordAt hl').symm
  · have hwords : m.geometry.byteEnables * m.geometry.sliceWidth = t.width :=
      h.consistent.slices.trans h.wordWidth
    have hold := Bits.wellFormed_iff_lt.mp (h.wellFormed_wordAt hl')
    have hnew := Bits.wellFormed_iff_lt.mp hwf
    rw [h.width_wordAt hl', ← hwords] at hold
    rw [hwidth, ← hwords] at hnew
    rw [toNat_wordAt_written h hwritten hl', splice_all h.consistent.sliceWidth_pos hold hnew]
    split <;> rfl

theorem exists_store_eq_ok (h : m.Sound) {l : Location} {word : Bits}
    (hl : m.geometry.contains l) (hwidth : word.width = t.width) (hwf : word.WellFormed) :
    ∃ value, Value.unpack t word = .ok value ∧ m.store l value = .ok (m.put l word) := by
  obtain ⟨value, hvalue, hpack⟩ := Value.readsBack t h.width_lt hwidth hwf
  refine ⟨value, hvalue, ?_⟩
  obtain ⟨next, hnext, -⟩ :=
    exists_writeBits_eq_ok h (.all m.geometry.byteEnables) hl
      (hwidth.trans h.wordWidth.symm) rfl
  rw [put, after, perform, hnext]
  change m.writeBits l (Value.pack t value) _ = _
  rw [hpack, hnext]
  rfl

end Memory

end BankedStore
