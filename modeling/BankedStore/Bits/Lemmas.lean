import Mathlib.Algebra.Order.Ring.Nat
import BankedStore.Bits.Basic

/-!
Bit vectors through the number they spell.  Each operation is described by the bits of `toNat` of
its result, and each keeps the padding clear, so that the number stays below `2 ^ width`.  Vectors
of one width with one number are equal.
-/

namespace BankedStore.Bits

theorem getLsbD_lowMask (n i : Nat) :
    (lowMask n).toBitVec.getLsbD i = decide (i < n ∧ i < 64) := by
  unfold lowMask
  split
  · rename_i h
    have hn : n % 2 ^ 64 % 64 = n := by omega
    have shifted : ((1 : UInt64) <<< n.toUInt64).toNat = 2 ^ n := by
      rw [UInt64.toNat_shiftLeft]
      simp only [Nat.toUInt64, UInt64.toNat_ofNat', UInt64.toNat_one, Nat.one_shiftLeft]
      rw [hn]
      exact Nat.mod_eq_of_lt (Nat.pow_lt_pow_right (by decide) h)
    have one_le : (1 : UInt64) ≤ 1 <<< n.toUInt64 := by
      rw [UInt64.le_iff_toNat_le, shifted]
      exact Nat.one_le_two_pow
    have value : ((1 : UInt64) <<< n.toUInt64 - 1).toNat = 2 ^ n - 1 := by
      rw [UInt64.toNat_sub_of_le _ _ one_le, shifted]
      rfl
    rw [BitVec.getLsbD, UInt64.toNat_toBitVec, value, Nat.testBit_two_pow_sub_one]
    grind
  · rename_i h
    rw [show (~~~(0 : UInt64)).toBitVec = BitVec.allOnes 64 from rfl, BitVec.getLsbD_allOnes]
    grind

private theorem testBit_foldr (words : List UInt64) (i : Nat) :
    (words.foldr (fun (word : UInt64) high => word.toNat + UInt64.size * high) 0).testBit i
      = (words[i / 64]?.getD 0).toBitVec.getLsbD (i % 64) := by
  induction words generalizing i with
  | nil => simp
  | cons word rest ih =>
    rw [List.foldr_cons, Nat.add_comm, Nat.testBit_two_pow_mul_add _ (UInt64.toNat_lt word)]
    split
    · rename_i h
      rw [Nat.div_eq_of_lt h, Nat.mod_eq_of_lt h]
      rfl
    · rename_i h
      rw [ih, show i / 64 = (i - 64) / 64 + 1 by omega, show i % 64 = (i - 64) % 64 by omega]
      rfl

theorem testBit_toNat (b : Bits) (i : Nat) :
    b.toNat.testBit i = (b.words[i / 64]?.getD 0).toBitVec.getLsbD (i % 64) := by
  rw [toNat, testBit_foldr, Vector.getElem?_toList]

theorem testBit_toNat_of_lt {b : Bits} {i : Nat} (h : i / 64 < wordCount b.width) :
    b.toNat.testBit i = b.words[i / 64].toBitVec.getLsbD (i % 64) := by
  rw [testBit_toNat, Vector.getElem?_eq_getElem h, Option.getD_some]

theorem testBit_toNat_of_le {b : Bits} {i : Nat} (h : wordCount b.width ≤ i / 64) :
    b.toNat.testBit i = false := by
  rw [testBit_toNat, Vector.getElem?_eq_none h]
  simp

theorem testBit_toNat_mk {width : Nat} {words : Vector UInt64 (wordCount width)} (i : Nat) :
    (Bits.mk width words).toNat.testBit i = (words[i / 64]?.getD 0).toBitVec.getLsbD (i % 64) :=
  testBit_toNat _ i

theorem testBit_toNat_ofWords (width : Nat) (f : Nat → UInt64) (i : Nat) :
    (ofWords width f).toNat.testBit i
      = (decide (i < width) && (f (i / 64)).toBitVec.getLsbD (i % 64)) := by
  unfold ofWords
  rw [testBit_toNat_mk]
  by_cases h : i / 64 < wordCount width
  · simp only [Vector.getElem?_eq_getElem h, Option.getD_some, Vector.getElem_ofFn,
      UInt64.toBitVec_and, BitVec.getLsbD_and, getLsbD_lowMask]
    grind
  · have : ¬ i < width := by unfold wordCount at h; omega
    simp [h, this]

/-! ## Words as numbers -/

theorem toNat_injective {a b : Bits} (width : a.width = b.width) (value : a.toNat = b.toNat) :
    a = b := by
  obtain ⟨width, xs⟩ := a
  obtain ⟨_, ys⟩ := b
  cases width
  congr 1
  apply Vector.ext
  intro i hi
  apply UInt64.toBitVec_inj.mp
  apply BitVec.eq_of_getLsbD_eq
  intro j hj
  have := congrArg (·.testBit (64 * i + j)) value
  simp only [testBit_toNat] at this
  rw [show (64 * i + j) / 64 = i by omega, show (64 * i + j) % 64 = j by omega] at this
  simpa [hi] using this

theorem wellFormed_iff_lt {b : Bits} : b.WellFormed ↔ b.toNat < 2 ^ b.width := by
  rw [WellFormed, Nat.shiftRight_eq_div_pow]
  exact Nat.div_eq_zero_iff_lt (Nat.two_pow_pos b.width)

theorem wellFormed_iff {b : Bits} :
    b.WellFormed ↔ ∀ i, b.width ≤ i → b.toNat.testBit i = false := by
  rw [wellFormed_iff_lt]
  constructor
  · intro h i hi
    exact Nat.testBit_lt_two_pow (Nat.lt_of_lt_of_le h (Nat.pow_le_pow_right (by decide) hi))
  · intro h
    exact Nat.lt_pow_two_of_testBit _ h

theorem wellFormed_ofWords (width : Nat) (f : Nat → UInt64) : (ofWords width f).WellFormed := by
  rw [wellFormed_iff]
  intro i hi
  have : ¬ i < width := Nat.not_lt.mpr hi
  simp [testBit_toNat_ofWords, this]

theorem toNat_zero (width : Nat) : (zero width).toNat = 0 := by
  apply Nat.eq_of_testBit_eq
  intro i
  unfold zero
  rw [testBit_toNat_mk, Nat.zero_testBit]
  by_cases h : i / 64 < wordCount width <;> simp [h]

theorem wellFormed_zero (width : Nat) : (zero width).WellFormed := by
  rw [wellFormed_iff_lt, toNat_zero]
  exact Nat.two_pow_pos width

theorem toNat_ones (width : Nat) : (ones width).toNat = 2 ^ width - 1 := by
  apply Nat.eq_of_testBit_eq
  intro i
  rw [ones, testBit_toNat_ofWords, Nat.testBit_two_pow_sub_one,
    show (~~~(0 : UInt64)).toBitVec = BitVec.allOnes 64 from rfl, BitVec.getLsbD_allOnes]
  simp [Nat.mod_lt]

theorem toNat_ofNat (width value : Nat) : (ofNat width value).toNat = value % 2 ^ width := by
  apply Nat.eq_of_testBit_eq
  intro i
  rw [ofNat, testBit_toNat_ofWords, Nat.testBit_mod_two_pow, Nat.toUInt64,
    UInt64.toBitVec_ofNat', BitVec.getLsbD_ofNat, Nat.testBit_shiftRight, Nat.div_add_mod]
  simp [Nat.mod_lt]

theorem toNat_ofUInt64 (width : Nat) (value : UInt64) :
    (ofUInt64 width value).toNat = value.toNat % 2 ^ width := by
  apply Nat.eq_of_testBit_eq
  intro i
  rw [ofUInt64, testBit_toNat_ofWords, Nat.testBit_mod_two_pow]
  congr 1
  by_cases h : i < 64
  · rw [if_pos (by omega), Nat.mod_eq_of_lt h]
    rfl
  · have : value.toNat < 2 ^ i :=
      Nat.lt_of_lt_of_le value.toNat_lt (Nat.pow_le_pow_right (by decide) (by omega))
    rw [if_neg (by omega), Nat.testBit_lt_two_pow this]
    simp

theorem toNat_ofBitVec128 (width : Nat) (value : BitVec 128) :
    (ofBitVec128 width value).toNat = value.toNat % 2 ^ width := by
  apply Nat.eq_of_testBit_eq
  intro i
  have : i % 64 < 64 := Nat.mod_lt i (by decide)
  rw [ofBitVec128, testBit_toNat_ofWords, Nat.testBit_mod_two_pow, BitVec.getLsbD_setWidth,
    BitVec.getLsbD_ushiftRight, Nat.div_add_mod, BitVec.getLsbD]
  simp [this]

/-! ## Pieces -/

private theorem toNat_shiftAmount {n : Nat} (h : n < 64) :
    (n.toUInt64.toBitVec % 64).toNat = n := by
  rw [BitVec.toNat_umod]
  change n % 2 ^ 64 % 64 = n
  omega

theorem getLsbD_shiftRight (word : UInt64) {n : Nat} (h : n < 64) (i : Nat) :
    (word >>> n.toUInt64).toBitVec.getLsbD i = word.toBitVec.getLsbD (n + i) := by
  rw [UInt64.toBitVec_shiftRight, BitVec.ushiftRight_eq', toNat_shiftAmount h,
    BitVec.getLsbD_ushiftRight]

theorem getLsbD_shiftLeft (word : UInt64) {n : Nat} (h : n < 64) (i : Nat) :
    (word <<< n.toUInt64).toBitVec.getLsbD i
      = (decide (n ≤ i ∧ i < 64) && word.toBitVec.getLsbD (i - n)) := by
  rw [UInt64.toBitVec_shiftLeft, BitVec.shiftLeft_eq', toNat_shiftAmount h,
    BitVec.getLsbD_shiftLeft]
  grind

theorem getLsbD_chunk {b : Bits} {low n : Nat} (h : low + n ≤ b.width) (small : n ≤ 64)
    (i : Nat) :
    (b.chunk low n h).toBitVec.getLsbD i = (decide (i < n) && b.toNat.testBit (low + i)) := by
  unfold chunk
  by_cases hn : n = 0
  · simp [hn]
  rw [dif_neg hn]
  have first : low / 64 < wordCount b.width := by unfold wordCount; omega
  have shift : low % 64 < 64 := Nat.mod_lt low (by decide)
  by_cases hs : low % 64 + n ≤ 64
  · rw [dif_pos hs, UInt64.toBitVec_and, BitVec.getLsbD_and, getLsbD_lowMask,
      getLsbD_shiftRight _ shift]
    by_cases hi : i < n
    · have word : (low + i) / 64 = low / 64 := by omega
      have bit : (low + i) % 64 = low % 64 + i := by omega
      rw [testBit_toNat_of_lt (by omega)]
      simp only [word, bit]
      grind
    · simp [hi]
  · have second : low / 64 + 1 < wordCount b.width := by unfold wordCount; omega
    rw [dif_neg hs, UInt64.toBitVec_and, BitVec.getLsbD_and, getLsbD_lowMask,
      UInt64.toBitVec_or, BitVec.getLsbD_or, getLsbD_shiftRight _ shift,
      getLsbD_shiftLeft _ (by omega)]
    by_cases hi : i < n
    · by_cases hw : low % 64 + i < 64
      · have word : (low + i) / 64 = low / 64 := by omega
        have bit : (low + i) % 64 = low % 64 + i := by omega
        rw [testBit_toNat_of_lt (by omega)]
        simp only [word, bit]
        grind
      · have word : (low + i) / 64 = low / 64 + 1 := by omega
        have bit : (low + i) % 64 = i - (64 - low % 64) := by omega
        rw [testBit_toNat_of_lt (by omega), BitVec.getLsbD_of_ge _ (low % 64 + i) (by omega)]
        simp only [word, bit]
        grind
    · simp [hi]

theorem testBit_toNat_extract {b : Bits} {low width : Nat} (h : low + width ≤ b.width) (i : Nat) :
    (b.extract low width h).toNat.testBit i
      = (decide (i < width) && b.toNat.testBit (low + i)) := by
  unfold extract
  rw [testBit_toNat_mk]
  by_cases hw : i / 64 < wordCount width
  · rw [Vector.getElem?_eq_getElem hw, Option.getD_some, Vector.getElem_ofFn,
      getLsbD_chunk _ (Nat.min_le_left ..), show low + 64 * (i / 64) + i % 64 = low + i by omega]
    congr 1
    grind
  · have : ¬ i < width := by unfold wordCount at hw; omega
    simp [hw, this]

theorem testBit_toNat_overwrite (b : Bits) (low : Nat) (part : Bits) (i : Nat) :
    (b.overwrite low part).toNat.testBit i
      = if low ≤ i ∧ i < low + part.width ∧ i / 64 < wordCount b.width then
          part.toNat.testBit (i - low)
        else b.toNat.testBit i := by
  unfold overwrite
  rw [testBit_toNat_mk]
  by_cases hw : i / 64 < wordCount b.width
  · rw [Vector.getElem?_eq_getElem hw, Option.getD_some, Vector.getElem_ofFn,
      testBit_toNat_of_lt hw]
    dsimp only
    split
    · rename_i h
      rw [UInt64.toBitVec_or, BitVec.getLsbD_or, UInt64.toBitVec_and, BitVec.getLsbD_and,
        UInt64.toBitVec_not, BitVec.getLsbD_not, getLsbD_shiftLeft _ (by omega),
        getLsbD_shiftLeft _ (by omega), getLsbD_lowMask, getLsbD_chunk _ (by omega)]
      by_cases inside : low ≤ i ∧ i < low + part.width
      · rw [if_pos (by omega)]
        have source : max (64 * (i / 64)) low - low
            + (i % 64 - (max (64 * (i / 64)) low - 64 * (i / 64))) = i - low := by omega
        rw [source]
        grind
      · rw [if_neg (by omega)]
        grind
    · rw [if_neg (by omega)]
      rfl
  · rw [if_neg (by omega), testBit_toNat_of_le (by omega)]
    simp [hw]

theorem wellFormed_extract {b : Bits} {low width : Nat} (h : low + width ≤ b.width) :
    (b.extract low width h).WellFormed := by
  rw [wellFormed_iff]
  intro i hi
  have : ¬ i < width := Nat.not_lt.mpr hi
  simp [testBit_toNat_extract, this]

theorem wellFormed_overwrite {b : Bits} {low : Nat} {part : Bits} (hb : b.WellFormed)
    (h : low + part.width ≤ b.width) : (b.overwrite low part).WellFormed := by
  rw [wellFormed_iff] at hb ⊢
  intro i hi
  have hi : b.width ≤ i := hi
  rw [testBit_toNat_overwrite, if_neg (by omega)]
  exact hb i hi

theorem toNat_extract {b : Bits} {low width : Nat} (h : low + width ≤ b.width) :
    (b.extract low width h).toNat = b.toNat / 2 ^ low % 2 ^ width := by
  apply Nat.eq_of_testBit_eq
  intro i
  rw [testBit_toNat_extract, Nat.testBit_mod_two_pow, Nat.testBit_div_two_pow, Nat.add_comm]

theorem toNat_append {low high : Bits} (hl : low.WellFormed) (hh : high.WellFormed) :
    (low.append high).toNat = low.toNat + 2 ^ low.width * high.toNat := by
  apply Nat.eq_of_testBit_eq
  intro i
  unfold append
  rw [Nat.add_comm low.toNat, Nat.testBit_two_pow_mul_add _ (wellFormed_iff_lt.mp hl),
    testBit_toNat_overwrite, testBit_toNat_overwrite, toNat_zero, Nat.zero_testBit]
  rw [wellFormed_iff] at hl hh
  have width : ((zero (low.width + high.width)).overwrite 0 low).width = low.width + high.width :=
    rfl
  have width' : (zero (low.width + high.width)).width = low.width + high.width := rfl
  rw [width, width']
  unfold wordCount
  by_cases h : i < low.width
  · rw [if_neg (by omega), if_pos (by omega), if_pos h]
    rfl
  · rw [if_neg h]
    by_cases h' : i < low.width + high.width
    · rw [if_pos (by omega)]
    · rw [if_neg (by omega), if_neg (by omega), hh _ (by omega)]

theorem wellFormed_append {low high : Bits} (hl : low.WellFormed) (hh : high.WellFormed) :
    (low.append high).WellFormed := by
  have width : (low.append high).width = low.width + high.width := rfl
  rw [wellFormed_iff_lt, toNat_append hl hh, width, Nat.pow_add]
  have : 2 ^ low.width * (high.toNat + 1) ≤ 2 ^ low.width * 2 ^ high.width :=
    Nat.mul_le_mul_left _ (wellFormed_iff_lt.mp hh)
  have : low.toNat < 2 ^ low.width := wellFormed_iff_lt.mp hl
  grind

theorem wellFormed_concat {parts : List Bits} (h : ∀ part ∈ parts, part.WellFormed) :
    (concat parts).WellFormed := by
  induction parts with
  | nil => exact wellFormed_zero 0
  | cons part parts ih =>
    exact wellFormed_append (h part (by simp)) (ih fun p hp => h p (by simp [hp]))

theorem width_concat (parts : List Bits) : (concat parts).width = (parts.map width).sum := by
  induction parts with
  | nil => rfl
  | cons part parts ih =>
    rw [List.map_cons, List.sum_cons, ← ih]
    rfl

theorem toNat_concat_cons {part : Bits} {parts : List Bits} (hp : part.WellFormed)
    (h : ∀ p ∈ parts, p.WellFormed) :
    (concat (part :: parts)).toNat = part.toNat + 2 ^ part.width * (concat parts).toNat :=
  toNat_append hp (wellFormed_concat h)

/-! ## Single bits and whole numbers -/

private theorem and_one_beq_one (word : UInt64) :
    (word &&& 1 == 1) = word.toBitVec.getLsbD 0 := by
  have value : (word &&& 1).toNat = word.toNat % 2 := by
    rw [UInt64.toNat_and, UInt64.toNat_one, Nat.and_one_is_mod]
  rw [BitVec.getLsbD, UInt64.toNat_toBitVec, Nat.testBit_zero, Bool.eq_iff_iff, beq_iff_eq,
    ← UInt64.toNat_inj, value, decide_eq_true_iff]
  rfl

theorem getBit_eq_testBit {b : Bits} {i : Nat} (h : i < b.width) :
    b.getBit i h = b.toNat.testBit i := by
  have word : i / 64 < wordCount b.width := by unfold wordCount; omega
  unfold getBit
  rw [testBit_toNat_of_lt word, and_one_beq_one, getLsbD_shiftRight _ (Nat.mod_lt i (by decide))]
  rfl

theorem testBit_toNat_setBit {b c : Bits} {i : Nat} {value : Bool} (h : b.setBit i value = .ok c)
    (j : Nat) : c.toNat.testBit j = if j = i then value else b.toNat.testBit j := by
  unfold setBit at h
  split at h
  · rename_i hi
    cases h
    have word : i / 64 < wordCount b.width := by unfold wordCount; omega
    have shift : i % 64 < 64 := Nat.mod_lt i (by decide)
    rw [testBit_toNat_mk, Vector.getElem?_set, testBit_toNat]
    by_cases same : i / 64 = j / 64
    · rw [if_pos same, Option.getD_some, ← same, Vector.getElem?_eq_getElem word,
        Option.getD_some]
      have one : ((1 : UInt64) <<< (i % 64).toUInt64).toBitVec.getLsbD (j % 64)
          = decide (j = i) := by
        rw [getLsbD_shiftLeft _ shift, show (1 : UInt64).toBitVec = 1#64 from rfl]
        grind
      cases value with
      | true =>
        simp only [if_true, UInt64.toBitVec_or, BitVec.getLsbD_or, one]
        grind
      | false =>
        simp only [Bool.false_eq_true, if_false, UInt64.toBitVec_and, UInt64.toBitVec_not,
          BitVec.getLsbD_and, BitVec.getLsbD_not, one]
        grind
    · rw [if_neg same, if_neg (by omega)]
  · contradiction

theorem toNat_toUInt64 (b : Bits) : b.toUInt64.toNat = b.toNat % 2 ^ 64 := by
  apply Nat.eq_of_testBit_eq
  intro i
  rw [Nat.testBit_mod_two_pow, testBit_toNat]
  unfold toUInt64
  by_cases h : i < 64
  · rw [Nat.div_eq_of_lt h, Nat.mod_eq_of_lt h]
    simp only [h, decide_true, Bool.true_and]
    rfl
  · have : (b.words[0]?.getD 0).toNat < 2 ^ i :=
      Nat.lt_of_lt_of_le (UInt64.toNat_lt _) (Nat.pow_le_pow_right (by decide) (by omega))
    simp [h, Nat.testBit_lt_two_pow this]

theorem toNat_toBitVec128 (b : Bits) : b.toBitVec128.toNat = b.toNat % 2 ^ 128 := by
  apply Nat.eq_of_testBit_eq
  intro i
  rw [Nat.testBit_mod_two_pow, testBit_toNat, ← BitVec.getLsbD]
  unfold toBitVec128
  rw [BitVec.getLsbD_append]
  by_cases low : i < 64
  · rw [Nat.div_eq_of_lt low, Nat.mod_eq_of_lt low]
    simp [low]
    omega
  · by_cases high : i < 128
    · rw [show i / 64 = 1 by omega, show i % 64 = i - 64 by omega]
      simp [low, high]
    · rw [if_neg low, BitVec.getLsbD_of_ge _ _ (by omega)]
      simp [high]

theorem isZero_iff (b : Bits) : b.isZero = true ↔ b.toNat = 0 := by
  constructor
  · intro h
    apply Nat.eq_of_testBit_eq
    intro i
    rw [Nat.zero_testBit]
    by_cases hi : i / 64 < wordCount b.width
    · have := Vector.all_eq_true.mp h (i / 64) hi
      rw [testBit_toNat_of_lt hi, beq_iff_eq.mp this]
      simp
    · exact testBit_toNat_of_le (by omega)
  · intro h
    apply Vector.all_eq_true.mpr
    intro i hi
    rw [beq_iff_eq, ← UInt64.toBitVec_inj]
    apply BitVec.eq_of_getLsbD_eq
    intro j hj
    have := testBit_toNat (b := b) (64 * i + j)
    rw [h, Nat.zero_testBit, show (64 * i + j) / 64 = i by omega,
      show (64 * i + j) % 64 = j by omega, Vector.getElem?_eq_getElem hi] at this
    simpa using this.symm

end BankedStore.Bits
