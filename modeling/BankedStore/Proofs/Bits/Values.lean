import Mathlib.Combinatorics.Colex
import BankedStore.Proofs.Bits.WordLoops

/-!
# What number a vector stands for

The value of a vector is the sum of the powers of two at its set bits.  The words are
not mentioned: a constructor takes its number modulo two to the width, reading gives
the value modulo two to the bits that are read, and setting a bit exchanges one term
of the sum.  Constructors are also followed word by word, as they fill a zero vector
and then clear what lies above the width.
-/

namespace BankedStore.Bits

variable {b : Bits}

def setBits (b : Bits) : Finset Nat :=
  (Finset.range b.width).filter fun i => b.bit i = .ok true

def value (b : Bits) : Nat :=
  ∑ i ∈ b.setBits, 2 ^ i

theorem mem_setBits (h : b.WellFormed) {i : Nat} :
    i ∈ b.setBits ↔ b.toNat.testBit i = true := by
  rw [setBits, Finset.mem_filter, Finset.mem_range, bit_eq_ok_true_iff h]
  refine and_iff_right_of_imp fun hset => Nat.lt_of_not_le fun hle => ?_
  simp [wellFormed_iff.mp h i hle] at hset

theorem value_eq_toNat (h : b.WellFormed) : b.value = b.toNat := by
  have hbits : b.setBits = b.toNat.bitIndices.toFinset := by
    ext i
    simp [mem_setBits h]
  rw [value, hbits, Finset.sum_toFinset_bitIndices_two_pow]

theorem countOnes_eq_card (h : b.WellFormed) : b.countOnes = b.setBits.card := by
  rw [countOnes_eq_countP h, List.countP_eq_length_filter]
  rfl

theorem card_setBits_le (b : Bits) : b.setBits.card ≤ b.width :=
  (Finset.card_filter_le ..).trans_eq (Finset.card_range _)

/-! ## Changing a bit -/

theorem setBit_eq_error_iff {i : Nat} {x : Bool} {fault : Fault} :
    b.setBit i x = .error fault ↔ b.width ≤ i ∧ fault = .bitOutOfRange i b.width := by
  unfold setBit
  split <;> simp [eq_comm] <;> omega

theorem exists_setBit_eq_ok {i : Nat} (hi : i < b.width) (x : Bool) :
    ∃ next, b.setBit i x = .ok next ∧ next.width = b.width := by
  unfold setBit
  rw [dif_pos hi]
  exact ⟨_, rfl, rfl⟩

theorem lt_width_of_bit {i : Nat} {x : Bool} (h : b.bit i = .ok x) : i < b.width := by
  by_contra hout
  rw [bit_eq_error (Nat.not_lt.mp hout)] at h
  contradiction

theorem mem_setBits_iff_bit {i : Nat} {x : Bool} (h : b.bit i = .ok x) :
    i ∈ b.setBits ↔ x = true := by
  simp [setBits, lt_width_of_bit h, h]

theorem value_eq_erase_add {i : Nat} {x : Bool} (h : b.bit i = .ok x) :
    b.value = ∑ j ∈ b.setBits.erase i, 2 ^ j + x.toNat * 2 ^ i := by
  have hmem := mem_setBits_iff_bit h
  cases x with
  | true => rw [value, ← Finset.sum_erase_add _ _ (hmem.mpr rfl), Bool.toNat_true, Nat.one_mul]
  | false =>
      rw [value, Finset.erase_eq_of_notMem (by simp [hmem]), Bool.toNat_false, Nat.zero_mul,
        Nat.add_zero]

theorem value_setBit (h : b.WellFormed) {i : Nat} {old x : Bool} {next : Bits}
    (hold : b.bit i = .ok old) (hnext : b.setBit i x = .ok next) (hwidth : next.width = b.width) :
    next.value + old.toNat * 2 ^ i = b.value + x.toNat * 2 ^ i := by
  have hbits := testBit_toNat_setBit hnext
  have hformed := wellFormed_of_setBit h hnext
  have hnew : next.bit i = .ok x := by
    rw [bit_eq_ok (hwidth ▸ lt_width_of_bit hold), hbits, if_pos rfl]
  have hothers : next.setBits.erase i = b.setBits.erase i := by
    ext j
    simp only [Finset.mem_erase, mem_setBits h, mem_setBits hformed, hbits]
    grind
  rw [value_eq_erase_add hold, value_eq_erase_add hnew, hothers]
  omega

/-! ## Word by word -/

def setBitByWord (i : Nat) (x : Bool) : InPlace Unit := do
  let b ← get
  if i < b.width then
    let mask := 1 <<< (← shiftAmount (i % 64))
    let word ← b.loadWord (i / 64)
    storeWord (i / 64) (if x then word ||| mask else word &&& ~~~mask)
  else throw (.bitOutOfRange i b.width)

theorem on_setBitByWord (b : Bits) (i : Nat) (x : Bool) :
    (setBitByWord i x).on b =
      match b.setBit i x with
      | .ok next => (.ok (), next)
      | .error fault => (.error fault, b) := by
  unfold setBitByWord setBit
  rw [on_get_bind]
  by_cases hi : i < b.width
  · have hword : i / 64 < wordCount b.width := by unfold wordCount; omega
    rw [if_pos hi, dif_pos hi, shiftAmount_eq_ok (Nat.mod_lt i (by decide)), on_lift_bind,
      loadWord_eq_ok hword, on_lift_bind, on_storeWord hword]
    rfl
  · rw [if_neg hi, dif_neg hi]
    rfl

def offerWord (k : Nat) (word : UInt64) : InPlace Unit := do
  if k < wordCount (← get).width then storeWord k word

def offerWords (k : Nat) : List UInt64 → InPlace Unit
  | [] => return
  | word :: words => do
      offerWord k word
      offerWords (k + 1) words

def trim : InPlace Unit := do
  let b ← get
  if b.width % 64 ≠ 0 then
    let last := wordCount b.width - 1
    storeWord last ((← b.loadWord last) &&& (← maskOf (b.width % 64)))

/-- A zero vector is filled from its lowest word on, and then trimmed. -/
def fill (width : Nat) (words : List UInt64) : Except Fault Unit × Bits :=
  (offerWords 0 words >>= fun _ => trim).on (zero width)

theorem exists_on_offerWord (b : Bits) (k : Nat) (word : UInt64) :
    ∃ next, (offerWord k word).on b = (.ok (), next) ∧ next.width = b.width ∧
      ∀ i < b.width, next.toNat.testBit i =
        if i / 64 = k then word.toBitVec.getLsbD (i % 64) else b.toNat.testBit i := by
  unfold offerWord
  rw [on_get_bind]
  by_cases hk : k < wordCount b.width
  · rw [if_pos hk, on_storeWord hk]
    exact ⟨_, rfl, rfl, fun i _ => testBit_toNat_withWord hk word i⟩
  · rw [if_neg hk]
    refine ⟨b, rfl, rfl, fun i hi => ?_⟩
    have hother : i / 64 ≠ k := by unfold wordCount at hk; omega
    rw [if_neg hother]

theorem exists_on_offerWords (b : Bits) (k : Nat) (words : List UInt64) :
    ∃ next, (offerWords k words).on b = (.ok (), next) ∧ next.width = b.width ∧
      ∀ i < b.width, next.toNat.testBit i =
        if k ≤ i / 64 ∧ i / 64 < k + words.length then
          (words[i / 64 - k]?.getD 0).toBitVec.getLsbD (i % 64)
        else b.toNat.testBit i := by
  induction words generalizing b k with
  | nil => exact ⟨b, rfl, rfl, fun i _ => by rw [if_neg (by simp)]⟩
  | cons word words ih =>
      obtain ⟨first, hfirst, hwidth, hbits⟩ := exists_on_offerWord b k word
      obtain ⟨last, hlast, hwidth', hbits'⟩ := ih first (k + 1)
      refine ⟨last, ?_, hwidth'.trans hwidth, fun i hi => ?_⟩
      · rw [offerWords, on_bind, hfirst]
        exact hlast
      · rw [hbits' i (hwidth ▸ hi), hbits i hi, List.length_cons]
        rcases Nat.lt_trichotomy (i / 64) k with hbelow | hhere | habove
        · simp [show ¬ k ≤ i / 64 by omega, show ¬ k + 1 ≤ i / 64 by omega, hbelow.ne]
        · simp [hhere]
        · have hstep : i / 64 - k = i / 64 - (k + 1) + 1 := by omega
          simp [hstep, habove.ne', habove.le, Nat.succ_le_of_lt habove, Nat.add_right_comm,
            Nat.add_assoc]

theorem on_trim (b : Bits) : trim.on b = (.ok (), ofNat b.width b.toNat) := by
  unfold trim
  rw [on_get_bind]
  by_cases hrest : b.width % 64 = 0
  · have hformed : b.WellFormed := wellFormed_iff.mpr fun i hi =>
      testBit_toNat_of_le (by unfold wordCount; omega)
    rw [if_neg (not_not.mpr hrest), ofNat_toNat hformed]
    rfl
  · have hlast : wordCount b.width - 1 < wordCount b.width := by unfold wordCount; omega
    rw [if_pos hrest]
    dsimp only
    rw [loadWord_eq_ok hlast, on_lift_bind, maskOf_eq_ok, on_lift_bind, on_storeWord hlast]
    refine congrArg _ (toNat_injective rfl (Nat.eq_of_testBit_eq fun i => ?_))
    rw [testBit_toNat_withWord, toNat_ofNat, Nat.testBit_mod_two_pow, UInt64.toBitVec_and,
      BitVec.getLsbD_and, getLsbD_lowMask, testBit_words hlast (Nat.mod_lt i (by decide))]
    unfold wordCount
    by_cases hin : i / 64 = (b.width + 63) / 64 - 1
    · have hplace : 64 * ((b.width + 63) / 64 - 1) + i % 64 = i := by omega
      have hsame : i % 64 < b.width % 64 ∧ i % 64 < 64 ↔ i < b.width := by omega
      simp only [if_pos hin, hplace, hsame, Bool.and_comm]
    · by_cases hi : i < b.width
      · simp [hin, hi]
      · rw [if_neg hin, testBit_toNat_of_le (by unfold wordCount; omega), Bool.and_false]

theorem fill_eq_ofWords {width : Nat} {words : List UInt64} {f : Nat → UInt64}
    (h : ∀ k < wordCount width, words[k]?.getD 0 = f k) :
    fill width words = (.ok (), ofWords width f) := by
  obtain ⟨filled, hfilled, hwidth, hbits⟩ := exists_on_offerWords (zero width) 0 words
  have hvalue : ofNat width filled.toNat = ofWords width f := by
    refine toNat_injective rfl (Nat.eq_of_testBit_eq fun i => ?_)
    rw [toNat_ofNat, Nat.testBit_mod_two_pow, testBit_toNat_ofWords]
    by_cases hi : i < width
    · have hword : i / 64 < wordCount width := by unfold wordCount; omega
      rw [hbits i hi, toNat_zero, Nat.zero_testBit, ← h _ hword]
      by_cases hthere : i / 64 < words.length <;> simp [hthere]
    · simp [hi]
  rw [fill, on_bind, hfilled]
  change trim.on filled = _
  rw [on_trim, hwidth]
  exact congrArg _ hvalue

theorem fill_ofUInt64 (width : Nat) (v : UInt64) : fill width [v] = (.ok (), ofUInt64 width v) :=
  fill_eq_ofWords fun k _ => by cases k <;> rfl

theorem fill_ofBitVec128 (width : Nat) (v : BitVec 128) :
    fill width [⟨v.setWidth 64⟩, ⟨(v >>> 64).setWidth 64⟩] = (.ok (), ofBitVec128 width v) :=
  fill_eq_ofWords fun k _ => by
    match k with
    | 0 => simp
    | 1 => rfl
    | k + 2 =>
        have hnone : v >>> (64 * (k + 2)) = 0#128 := BitVec.ushiftRight_eq_zero (by omega)
        rw [hnone]
        rfl

theorem fill_ones (width : Nat) :
    fill width (List.replicate (wordCount width) (~~~0)) = (.ok (), ones width) :=
  fill_eq_ofWords fun k hk => by simp [hk]

/-! ## Constructors and readers -/

structure Holds (width : Nat) : Prop where
  ofUInt64 : ∀ v, (ofUInt64 width v).value = v.toNat % 2 ^ width
  ofBitVec128 : ∀ v, (ofBitVec128 width v).value = v.toNat % 2 ^ width
  agree : ∀ v : UInt64, Bits.ofBitVec128 width (v.toBitVec.setWidth 128) = Bits.ofUInt64 width v
  zero : (zero width).value = 0
  ones : (ones width).value = 2 ^ width - 1
  byWords : (∀ v, fill width [v] = (.ok (), Bits.ofUInt64 width v)) ∧
    (∀ v : BitVec 128, fill width [⟨v.setWidth 64⟩, ⟨(v >>> 64).setWidth 64⟩] =
      (.ok (), Bits.ofBitVec128 width v)) ∧
    fill width (List.replicate (wordCount width) (~~~0)) = (.ok (), Bits.ones width)

structure Tells (b : Bits) : Prop where
  toUInt64 : b.toUInt64.toNat = b.value % 2 ^ 64
  toBitVec128 : b.toBitVec128.toNat = b.value % 2 ^ 128
  isZero : b.isZero = true ↔ b.value = 0
  countOnes : b.countOnes = b.setBits.card ∧ (b.width < 2 ^ 32 → b.countOnes < 2 ^ 32)
  bit : ∀ i fault, b.bit i = .error fault ↔ b.width ≤ i ∧ fault = .bitOutOfRange i b.width
  setBit : ∀ i x fault,
    b.setBit i x = .error fault ↔ b.width ≤ i ∧ fault = .bitOutOfRange i b.width
  changed : ∀ i old x, b.bit i = .ok old → ∃ next, b.setBit i x = .ok next ∧
    next.width = b.width ∧ next.WellFormed ∧
    next.value + old.toNat * 2 ^ i = b.value + x.toNat * 2 ^ i
  byWord : ∀ i x, (setBitByWord i x).on b =
    match b.setBit i x with
    | .ok next => (.ok (), next)
    | .error fault => (.error fault, b)

theorem holds (width : Nat) : Holds width where
  ofUInt64 v := (value_eq_toNat (wellFormed_ofWords ..)).trans (toNat_ofUInt64 width v)
  ofBitVec128 v := (value_eq_toNat (wellFormed_ofWords ..)).trans (toNat_ofBitVec128 width v)
  agree v := by
    refine toNat_injective rfl ?_
    have hsmall : v.toNat % 2 ^ 128 = v.toNat := Nat.mod_eq_of_lt (by have := v.toNat_lt; omega)
    rw [toNat_ofBitVec128, toNat_ofUInt64, BitVec.toNat_setWidth, UInt64.toNat_toBitVec, hsmall]
  zero := (value_eq_toNat (wellFormed_zero width)).trans (toNat_zero width)
  ones := (value_eq_toNat (wellFormed_ofWords ..)).trans (toNat_ones width)
  byWords := ⟨fill_ofUInt64 width, fill_ofBitVec128 width, fill_ones width⟩

theorem WellFormed.tells (h : b.WellFormed) : b.Tells where
  toUInt64 := by rw [value_eq_toNat h, toNat_toUInt64]
  toBitVec128 := by rw [value_eq_toNat h, toNat_toBitVec128]
  isZero := by rw [value_eq_toNat h, isZero_iff]
  countOnes := by
    have hcount := countOnes_eq_card h
    exact ⟨hcount, fun hwidth => hcount ▸ Nat.lt_of_le_of_lt b.card_setBits_le hwidth⟩
  bit i fault := by
    unfold Bits.bit
    split <;> simp [eq_comm] <;> omega
  setBit i x fault := setBit_eq_error_iff
  changed i old x hold := by
    have hi := lt_width_of_bit hold
    obtain ⟨next, hnext, hwidth⟩ := exists_setBit_eq_ok hi x
    exact ⟨next, hnext, hwidth, wellFormed_of_setBit h hnext, value_setBit h hold hnext hwidth⟩
  byWord i x := on_setBitByWord b i x

/-- Numbers go into vectors modulo two to the width, and come out as the sum of the powers of two at
the set bits. -/
theorem value_faithful : (∀ width, Holds width) ∧ ∀ b : Bits, b.WellFormed → b.Tells :=
  ⟨holds, fun _ h => h.tells⟩

theorem value_faithful_spill :
    (ones 130).WellFormed ∧ (ones 130).Tells ∧ (ones 130).value = 2 ^ 130 - 1 ∧
      ∃ next, (ones 130).setBit 128 false = .ok next ∧ next.value = 2 ^ 130 - 1 - 2 ^ 128 := by
  have hformed : (ones 130).WellFormed := wellFormed_ofWords ..
  obtain ⟨hholds, htells⟩ := value_faithful
  have hones := (hholds 130).ones
  have hbit : (ones 130).bit 128 = .ok true := by decide
  obtain ⟨next, hnext, -, -, hvalue⟩ := (htells _ hformed).changed 128 true false hbit
  refine ⟨hformed, htells _ hformed, hones, next, hnext, ?_⟩
  have hsum : next.value + 2 ^ 128 = 2 ^ 130 - 1 := by simpa [hones] using hvalue
  exact Nat.eq_sub_of_add_eq hsum

end BankedStore.Bits
