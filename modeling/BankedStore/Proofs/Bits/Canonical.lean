import BankedStore.Proofs.Bits.Joining

/-!
# One representation for each vector

A vector is obtained from constructors, pieces and updates, composed in any way.
Each of them keeps the words above the width clear, so no two obtainable vectors
of one width hold the same bits in different words.  All that can be asked of a
vector is then a matter of its width and its bits.
-/

namespace BankedStore.Bits

/-- What comes of any composition of operations, none of which faults. -/
inductive Obtainable : Bits → Prop where
  | zero (width : Nat) : Obtainable (zero width)
  | ones (width : Nat) : Obtainable (ones width)
  | ofUInt64 (width : Nat) (value : UInt64) : Obtainable (ofUInt64 width value)
  | ofBitVec128 (width : Nat) (value : BitVec 128) : Obtainable (ofBitVec128 width value)
  | concat {parts : List Bits} :
      (∀ part ∈ parts, Obtainable part) → Obtainable (concat parts)
  | range {b piece : Bits} {low width : Nat} :
      Obtainable b → b.range low width = .ok piece → Obtainable piece
  | chunks {b piece : Bits} {size : Nat} {pieces : List Bits} :
      Obtainable b → b.chunks size = .ok pieces → piece ∈ pieces → Obtainable piece
  | setBit {b next : Bits} {i : Nat} {value : Bool} :
      Obtainable b → b.setBit i value = .ok next → Obtainable next
  | setRange {b part next : Bits} {low : Nat} :
      Obtainable b → Obtainable part → b.setRange low part = .ok next → Obtainable next

/-! ## Clear padding -/

variable {b : Bits}

theorem wellFormed_of_range {piece : Bits} {low width : Nat} (h : b.range low width = .ok piece) :
    piece.WellFormed := by
  unfold range at h
  split at h
  · split at h
    · cases h
      exact wellFormed_extract _
    · contradiction
  · contradiction

theorem wellFormed_of_mem_chunks {piece : Bits} {size : Nat} {pieces : List Bits}
    (h : b.chunks size = .ok pieces) (hpiece : piece ∈ pieces) : piece.WellFormed := by
  unfold chunks at h
  split at h
  · cases h
    obtain ⟨i, rfl⟩ := List.mem_ofFn.mp hpiece
    exact wellFormed_extract _
  · contradiction

theorem wellFormed_of_setBit {next : Bits} {i : Nat} {value : Bool} (hb : b.WellFormed)
    (h : b.setBit i value = .ok next) : next.WellFormed := by
  have hbits := testBit_toNat_setBit h
  obtain ⟨hi, hwidth⟩ : i < b.width ∧ next.width = b.width := by
    unfold setBit at h
    split at h
    · cases h
      exact ⟨‹i < b.width›, rfl⟩
    · contradiction
  rw [wellFormed_iff] at hb ⊢
  intro j hj
  rw [hwidth] at hj
  rw [hbits, if_neg (by omega)]
  exact hb j hj

theorem wellFormed_of_setRange {part next : Bits} {low : Nat} (hb : b.WellFormed)
    (h : b.setRange low part = .ok next) : next.WellFormed := by
  unfold setRange at h
  split at h
  · split at h
    · cases h
      exact wellFormed_overwrite hb ‹_›
    · contradiction
  · contradiction

theorem Obtainable.wellFormed (h : b.Obtainable) : b.WellFormed := by
  induction h with
  | zero width => exact wellFormed_zero width
  | ones width => exact wellFormed_ofWords ..
  | ofUInt64 width value => exact wellFormed_ofWords ..
  | ofBitVec128 width value => exact wellFormed_ofWords ..
  | concat _ ih => exact wellFormed_concat ih
  | range _ hrange => exact wellFormed_of_range hrange
  | chunks _ hchunks hpiece => exact wellFormed_of_mem_chunks hchunks hpiece
  | setBit _ hset ih => exact wellFormed_of_setBit ih hset
  | setRange _ _ hset ih => exact wellFormed_of_setRange ih hset

/-! ## What the bits decide -/

theorem bit_eq_ok {i : Nat} (h : i < b.width) : b.bit i = .ok (b.toNat.testBit i) := by
  rw [bit, dif_pos h, getBit_eq_testBit]

theorem bit_eq_error {i : Nat} (h : b.width ≤ i) : b.bit i = .error (.bitOutOfRange i b.width) :=
  dif_neg (Nat.not_lt.mpr h)

theorem bit_eq_ok_true_iff (h : b.WellFormed) {i : Nat} :
    b.bit i = .ok true ↔ b.toNat.testBit i = true := by
  by_cases hi : i < b.width
  · rw [bit_eq_ok hi, Except.ok.injEq]
  · rw [bit, dif_neg hi, wellFormed_iff.mp h i (by omega)]
    simp

theorem eq_iff_forall_bit {c : Bits} (hb : b.WellFormed) (hc : c.WellFormed) :
    b = c ↔ b.width = c.width ∧ ∀ i < b.width, b.bit i = c.bit i := by
  constructor
  · rintro rfl
    exact ⟨rfl, fun _ _ => rfl⟩
  · rintro ⟨hwidth, hbits⟩
    refine toNat_injective hwidth (Nat.eq_of_testBit_eq fun i => ?_)
    by_cases hi : i < b.width
    · have hsame := hbits i hi
      rw [bit_eq_ok hi, bit_eq_ok (hwidth ▸ hi), Except.ok.injEq] at hsame
      exact hsame
    · rw [wellFormed_iff.mp hb i (by omega), wellFormed_iff.mp hc i (by omega)]

theorem isZero_iff_forall_bit (h : b.WellFormed) :
    b.isZero = true ↔ ∀ i < b.width, b.bit i = .ok false := by
  rw [isZero_iff]
  constructor
  · intro hzero i hi
    rw [bit_eq_ok hi, hzero, Nat.zero_testBit]
  · intro hbits
    refine Nat.eq_of_testBit_eq fun i => ?_
    rw [Nat.zero_testBit]
    by_cases hi : i < b.width
    · have hclear := hbits i hi
      rw [bit_eq_ok hi, Except.ok.injEq] at hclear
      exact hclear
    · exact wellFormed_iff.mp h i (by omega)

theorem testBit_words {k j : Nat} (hk : k < wordCount b.width) (hj : j < 64) :
    b.words[k].toBitVec.getLsbD j = b.toNat.testBit (64 * k + j) := by
  have hword : (64 * k + j) / 64 = k := by omega
  have hbit : (64 * k + j) % 64 = j := by omega
  have hthere : (64 * k + j) / 64 < wordCount b.width := by rw [hword]; exact hk
  rw [testBit_toNat_of_lt hthere]
  simp only [hword, hbit]

/-! ### Counting -/

private theorem foldr_wordOnes (words : List UInt64) :
    words.foldr (fun word count => wordOnes word + count) 0 =
      (List.range (64 * words.length)).countP fun i =>
        (words[i / 64]?.getD 0).toBitVec.getLsbD (i % 64) := by
  induction words with
  | nil => rfl
  | cons word words ih =>
      have hlow : (List.range 64).countP (fun i =>
          ((word :: words)[i / 64]?.getD 0).toBitVec.getLsbD (i % 64)) = wordOnes word := by
        refine List.countP_congr fun i hi => ?_
        rw [List.mem_range] at hi
        rw [Nat.div_eq_of_lt hi, Nat.mod_eq_of_lt hi]
        rfl
      have hhigh : ((fun i => ((word :: words)[i / 64]?.getD 0).toBitVec.getLsbD (i % 64)) ∘
          (64 + ·)) = fun i => (words[i / 64]?.getD 0).toBitVec.getLsbD (i % 64) := by
        funext i
        have hdiv : (64 + i) / 64 = i / 64 + 1 := by omega
        have hmod : (64 + i) % 64 = i % 64 := by omega
        simp only [Function.comp_apply, hdiv, hmod, List.getElem?_cons_succ]
      rw [List.foldr_cons, ih, List.length_cons, Nat.mul_succ, Nat.add_comm _ 64, List.range_add,
        List.countP_append, hlow, List.countP_map, hhigh]

private theorem countP_range_of_le {width limit : Nat} {p : Nat → Bool} (hle : width ≤ limit)
    (h : ∀ i, width ≤ i → p i = false) :
    (List.range limit).countP p = (List.range width).countP p := by
  obtain ⟨extra, rfl⟩ := Nat.exists_eq_add_of_le hle
  have hnone : (List.range extra).countP (p ∘ (width + ·)) = 0 :=
    List.countP_eq_zero.mpr fun i _ => by simp [h (width + i) (by omega)]
  rw [List.range_add, List.countP_append, List.countP_map, hnone, Nat.add_zero]

theorem countOnes_eq_countP (h : b.WellFormed) :
    b.countOnes = (List.range b.width).countP fun i => b.bit i = .ok true := by
  have hwords : b.width ≤ 64 * wordCount b.width := by unfold wordCount; omega
  have hbits : (fun i => (b.words.toList[i / 64]?.getD 0).toBitVec.getLsbD (i % 64)) =
      b.toNat.testBit := by
    funext i
    rw [testBit_toNat, Vector.getElem?_toList]
  have hshown : (fun i => decide (b.bit i = .ok true)) = b.toNat.testBit := by
    funext i
    simp [bit_eq_ok_true_iff h]
  rw [countOnes, foldr_wordOnes, Vector.length_toList, hbits, hshown]
  exact countP_range_of_le hwords (wellFormed_iff.mp h)

/-! ## Obtainable vectors -/

structure Canonical (b : Bits) : Prop where
  size : b.words.toList.length = (b.width + 63) / 64
  padding : ∀ k (hk : k < wordCount b.width), ∀ j < 64, b.width ≤ 64 * k + j →
    b.words[k].toBitVec.getLsbD j = false
  words : ∀ k (hk : k < wordCount b.width), ∀ j < 64,
    (b.words[k].toBitVec.getLsbD j = true ↔ b.bit (64 * k + j) = .ok true)
  isZero : b.isZero = true ↔ ∀ i < b.width, b.bit i = .ok false
  countOnes : b.countOnes = (List.range b.width).countP fun i => b.bit i = .ok true
  toUInt64 : ∀ j, b.toUInt64.toBitVec.getLsbD j = true ↔ j < 64 ∧ b.bit j = .ok true
  toBitVec128 : ∀ j, b.toBitVec128.getLsbD j = true ↔ j < 128 ∧ b.bit j = .ok true

theorem WellFormed.canonical (h : b.WellFormed) : b.Canonical where
  size := Vector.length_toList
  padding k hk j hj hpad := by
    rw [testBit_words hk hj]
    exact wellFormed_iff.mp h _ hpad
  words k hk j hj := by rw [testBit_words hk hj, bit_eq_ok_true_iff h]
  isZero := isZero_iff_forall_bit h
  countOnes := countOnes_eq_countP h
  toUInt64 j := by
    rw [BitVec.getLsbD, UInt64.toNat_toBitVec, toNat_toUInt64, Nat.testBit_mod_two_pow,
      bit_eq_ok_true_iff h]
    simp
  toBitVec128 j := by
    rw [BitVec.getLsbD, toNat_toBitVec128, Nat.testBit_mod_two_pow, bit_eq_ok_true_iff h]
    simp

/-- Obtainable vectors are canonical, and equal as soon as their widths and bits agree. -/
theorem obtainable_canonical (h : b.Obtainable) :
    b.Canonical ∧
      ∀ c : Bits, c.Obtainable →
        (b = c ↔ b.width = c.width ∧ ∀ i < b.width, b.bit i = c.bit i) :=
  ⟨h.wellFormed.canonical, fun _ hc => eq_iff_forall_bit h.wellFormed hc.wellFormed⟩

theorem obtainable_canonical_spill :
    (ones 70).setRange 62 (zero 5) = .ok ((ones 70).overwrite 62 (zero 5)) ∧
      ((ones 70).overwrite 62 (zero 5)).Canonical ∧
      ∀ c : Bits, c.Obtainable →
        ((ones 70).overwrite 62 (zero 5) = c ↔
          70 = c.width ∧ ∀ i < 70, ((ones 70).overwrite 62 (zero 5)).bit i = c.bit i) := by
  have hset : (ones 70).setRange 62 (zero 5) = .ok ((ones 70).overwrite 62 (zero 5)) := rfl
  exact ⟨hset, obtainable_canonical (.setRange (.ones 70) (.zero 5) hset)⟩

end BankedStore.Bits
