import BankedStore.SliceMask
import BankedStore.Proofs.Bits.Joining
import BankedStore.Proofs.Bits.Values

/-!
# Masks as finite sets

A mask of `n` slices is a set of numbers below `n`.  However it is built, asking for a
slice gives what was put in; listing, flipping and changing it, and whether it chooses
nothing or everything, are what they are for the set.

The set is kept in a vector of bits.  There a mask is filled with words, cut from a
number or set bit after bit by steps that can fault, its set bits are counted in 32
bits, and two masks are compared word by word.  All of this comes to the same set, so
what lies above the length never shows.
-/

namespace BankedStore

namespace SliceMask

variable {m : SliceMask} {n i : Nat}

/-! ## The set -/

theorem isSet_eq_ok (h : i < m.length) : m.isSet i = .ok (m.allows i) :=
  if_pos h

theorem isSet_eq_error_iff {fault : Fault} :
    m.isSet i = .error fault ↔ m.length ≤ i ∧ fault = .bitOutOfRange i m.length := by
  unfold isSet
  split <;> simp [eq_comm] <;> omega

theorem isSet_eq_ok_true_iff : m.isSet i = .ok true ↔ m.allows i = true := by
  constructor
  · intro h
    unfold isSet at h
    split at h
    · exact Except.ok.inj h
    · contradiction
  · intro h
    rw [isSet_eq_ok (lt_length_of_allows h), h]

theorem mem_toList : i ∈ m.toList ↔ m.allows i = true := by
  rw [toList, List.mem_filter, List.mem_range]
  exact and_iff_right_of_imp lt_length_of_allows

theorem pairwise_toList (m : SliceMask) : m.toList.Pairwise (· < ·) :=
  List.pairwise_lt_range.filter _

theorem ofList_toList (m : SliceMask) : ofList m.length m.toList = m := by
  refine eq_of_allows rfl fun i (hi : i < m.length) => ?_
  rw [ofList, allows_ofFn _ hi, Bool.eq_iff_iff, List.contains_iff_mem, mem_toList]

theorem eq_iff_mem_toList {k : SliceMask} :
    m = k ↔ m.length = k.length ∧ ∀ i, i ∈ m.toList ↔ i ∈ k.toList := by
  constructor
  · rintro rfl
    exact ⟨rfl, fun _ => Iff.rfl⟩
  · rintro ⟨hlength, hmem⟩
    refine eq_of_allows hlength fun i _ => ?_
    rw [Bool.eq_iff_iff, ← mem_toList, ← mem_toList, hmem]

theorem eq_iff_toList {k : SliceMask} (hlength : m.length = k.length) :
    m = k ↔ m.toList = k.toList := by
  refine ⟨congrArg toList, fun hsame => eq_iff_mem_toList.mpr ⟨hlength, fun i => ?_⟩⟩
  rw [hsame]

theorem ofList_filter_lt (n : Nat) (slices : List Nat) :
    ofList n (slices.filter (· < n)) = ofList n slices := by
  refine eq_of_allows rfl fun i (hi : i < n) => ?_
  rw [ofList, ofList, allows_ofFn _ hi, allows_ofFn _ hi]
  simp [hi]

/-! ### Everything and nothing -/

theorem complement_complement (m : SliceMask) : m.complement.complement = m := by
  refine eq_of_allows rfl fun i (hi : i < m.length) => ?_
  rw [allows_complement, allows_complement]
  simp [complement, hi]

theorem complement_all (n : Nat) : (all n).complement = none n := by
  refine eq_of_allows rfl fun i (hi : i < n) => ?_
  rw [allows_complement, allows_all, allows_none]
  simp [hi]

theorem complement_none (n : Nat) : (none n).complement = all n := by
  rw [← complement_all, complement_complement]

theorem toList_none (n : Nat) : (none n).toList = [] := by
  simp [toList, allows_none]

theorem toList_all (n : Nat) : (all n).toList = List.range n := by
  refine List.filter_eq_self.mpr fun i hi => ?_
  rw [allows_all]
  exact decide_eq_true (List.mem_range.mp hi)

theorem isNone_iff : m.isNone = true ↔ m.toList = [] := by
  have hnone : m = none m.length ↔ m.toList = [] := by
    rw [eq_iff_toList (m := m) (k := none m.length) rfl, toList_none]
  rw [← hnone, isNone, beq_iff_eq]
  exact ⟨congrArg (SliceMask.mk m.length), fun h => h ▸ rfl⟩

theorem isAll_iff : m.isAll = true ↔ m.toList = List.range m.length := by
  have hall : m = all m.length ↔ m.toList = List.range m.length := by
    rw [eq_iff_toList (m := m) (k := all m.length) rfl, toList_all]
  rw [← hall, isAll, beq_iff_eq]
  exact ⟨congrArg (SliceMask.mk m.length), fun h => h ▸ rfl⟩

/-! ### Changing a slice -/

theorem set_eq_error_iff {x : Bool} {fault : Fault} :
    m.set i x = .error fault ↔ m.length ≤ i ∧ fault = .bitOutOfRange i m.length := by
  unfold set
  split <;> simp [eq_comm] <;> omega

theorem exists_set_eq_ok (h : i < m.length) (x : Bool) :
    ∃ next, m.set i x = .ok next ∧ next.length = m.length ∧
      ∀ j, next.allows j = if j = i then x else m.allows j := by
  refine ⟨_, if_pos h, rfl, fun j => ?_⟩
  have hbit : (BitVec.twoPow m.length i).getLsbD j = decide (j = i) := by
    rw [BitVec.getLsbD_twoPow]
    grind
  by_cases hj : j = i
  · subst hj
    cases x <;> simp [allows, h]
  · have hinside : m.enabled.getLsbD j = true → j < m.length := lt_length_of_allows
    cases x with
    | true => simp [allows, hbit, hj]
    | false => simpa [allows, hbit, hj] using hinside

/-! ## The set in a vector of bits -/

@[simp] theorem width_toBits (m : SliceMask) : m.toBits.width = m.length := rfl

theorem wellFormed_toBits (m : SliceMask) : m.toBits.WellFormed :=
  Bits.wellFormed_ofWords ..

theorem toNat_toBits (m : SliceMask) : m.toBits.toNat = m.enabled.toNat := by
  rw [toBits, Bits.toNat_ofNat, Nat.mod_eq_of_lt m.enabled.isLt]

theorem testBit_toBits (m : SliceMask) (i : Nat) : m.toBits.toNat.testBit i = m.allows i := by
  rw [toNat_toBits]
  rfl

theorem eq_toBits {b : Bits} (hb : b.WellFormed) (hwidth : b.width = m.length)
    (h : ∀ i < m.length, b.toNat.testBit i = m.allows i) : b = m.toBits := by
  refine Bits.toNat_injective hwidth (Nat.eq_of_testBit_eq fun i => ?_)
  rw [testBit_toBits]
  by_cases hi : i < m.length
  · exact h i hi
  · rw [Bits.wellFormed_iff.mp hb i (by omega), allows_of_length_le (by omega)]

theorem exists_toBits_eq {b : Bits} (hb : b.WellFormed) : ∃ m : SliceMask, m.toBits = b := by
  refine ⟨⟨b.width, BitVec.ofNat b.width b.toNat⟩, (eq_toBits hb rfl fun i hi => ?_).symm⟩
  change _ = (BitVec.ofNat b.width b.toNat).getLsbD i
  rw [BitVec.getLsbD_ofNat]
  simp [hi]

theorem toBits_inj {k : SliceMask} : m.toBits = k.toBits ↔ m = k := by
  refine ⟨fun h => ?_, congrArg toBits⟩
  refine eq_of_allows (congrArg Bits.width h) fun i _ => ?_
  rw [← testBit_toBits, ← testBit_toBits, h]

theorem bit_toBits (m : SliceMask) (i : Nat) : m.toBits.bit i = m.isSet i := by
  by_cases hi : i < m.length
  · rw [Bits.bit_eq_ok (b := m.toBits) hi, isSet_eq_ok hi, testBit_toBits]
  · rw [Bits.bit_eq_error (b := m.toBits) (Nat.not_lt.mp hi), isSet, if_neg hi]
    rfl

/-! ### Words at a time -/

theorem toBits_all (n : Nat) : (all n).toBits = Bits.ones n := by
  have hformed : (Bits.ones n).WellFormed := Bits.wellFormed_ofWords ..
  refine (eq_toBits hformed rfl fun i _ => ?_).symm
  rw [Bits.toNat_ones, Nat.testBit_two_pow_sub_one, allows_all]

theorem toBits_none (n : Nat) : (none n).toBits = Bits.zero n := by
  refine (eq_toBits (Bits.wellFormed_zero n) rfl fun i _ => ?_).symm
  rw [Bits.toNat_zero, Nat.zero_testBit, allows_none]

theorem toBits_ofUInt64 (n : Nat) (value : UInt64) :
    (ofUInt64 n value).toBits = Bits.ofUInt64 n value := by
  have hformed : (Bits.ofUInt64 n value).WellFormed := Bits.wellFormed_ofWords ..
  refine (eq_toBits hformed rfl fun i _ => ?_).symm
  rw [Bits.toNat_ofUInt64, Nat.testBit_mod_two_pow, allows_ofUInt64]

theorem isZero_toBits (m : SliceMask) : m.toBits.isZero = m.isNone := by
  have hzero : m.enabled.toNat = 0 ↔ m.enabled = 0#m.length := by
    rw [← BitVec.toNat_inj, BitVec.toNat_ofNat, Nat.zero_mod]
  rw [Bool.eq_iff_iff, Bits.isZero_iff, toNat_toBits, isNone, beq_iff_eq]
  exact hzero

end SliceMask

/-! ### Bit after bit -/

namespace Bits

def setEach (answer : Nat → Except Fault Bool) : List Nat → InPlace Unit
  | [] => return
  | i :: rest => do
      setBitByWord i (← answer i)
      setEach answer rest

theorem exists_on_setEach {answer : Nat → Except Fault Bool} {f : Nat → Bool} (places : List Nat)
    {b : Bits} (hb : b.WellFormed) (hplaces : ∀ i ∈ places, i < b.width)
    (hanswer : ∀ i ∈ places, answer i = .ok (f i)) :
    ∃ next, (setEach answer places).on b = (.ok (), next) ∧ next.width = b.width ∧
      next.WellFormed ∧
      ∀ j, next.toNat.testBit j = if j ∈ places then f j else b.toNat.testBit j := by
  induction places generalizing b with
  | nil => exact ⟨b, rfl, rfl, hb, fun j => by simp⟩
  | cons i rest ih =>
      rw [List.forall_mem_cons] at hplaces hanswer
      obtain ⟨first, hfirst, hwidth⟩ := exists_setBit_eq_ok hplaces.1 (f i)
      have hstep : (setBitByWord i (f i)).on b = (.ok (), first) := by
        rw [on_setBitByWord, hfirst]
      obtain ⟨last, hlast, hwidth', hformed, hbits⟩ :=
        ih (wellFormed_of_setBit hb hfirst) (hwidth ▸ hplaces.2) hanswer.2
      refine ⟨last, ?_, hwidth'.trans hwidth, hformed, fun j => ?_⟩
      · rw [setEach, hanswer.1, on_lift_bind, on_bind, hstep]
        exact hlast
      · rw [hbits, testBit_toNat_setBit hfirst]
        by_cases hj : j = i
        · subst hj
          simp
        · simp [hj]

def listSet (b : Bits) : List Nat → Except Fault (List Nat)
  | [] => return []
  | i :: rest => do
      if ← b.bit i then return i :: (← b.listSet rest)
      else b.listSet rest

def addCount (a b : Nat) : Except Fault Nat :=
  if a + b < UInt32.size then .ok (a + b) else .error .overflow

def countOnes32 (b : Bits) : Except Fault Nat :=
  b.words.toList.foldlM (fun count word => addCount count (wordOnes word)) 0

def isAllByCount (b : Bits) : Except Fault Bool := do
  return (← b.countOnes32) == b.width

theorem foldlM_addCount (words : List UInt64) (count : Nat)
    (h : count + words.foldr (fun word n => wordOnes word + n) 0 < UInt32.size) :
    words.foldlM (fun count word => addCount count (wordOnes word)) count =
      .ok (count + words.foldr (fun word n => wordOnes word + n) 0) := by
  induction words generalizing count with
  | nil => rfl
  | cons word words ih =>
      rw [List.foldr_cons, ← Nat.add_assoc] at h
      have hstep : addCount count (wordOnes word) = .ok (count + wordOnes word) :=
        if_pos (Nat.lt_of_le_of_lt (Nat.le_add_right ..) h)
      rw [List.foldlM_cons, hstep, ok_bind, ih _ h, List.foldr_cons, Nat.add_assoc]

theorem countOnes32_eq_ok {b : Bits} (h : b.WellFormed) (hwidth : b.width < UInt32.size) :
    b.countOnes32 = .ok b.countOnes := by
  have hfits : b.countOnes < UInt32.size := by
    rw [countOnes_eq_card h]
    exact Nat.lt_of_le_of_lt b.card_setBits_le hwidth
  have hcount := foldlM_addCount b.words.toList 0 (by rw [Nat.zero_add]; exact hfits)
  rw [Nat.zero_add] at hcount
  exact hcount

end Bits

namespace SliceMask

variable {m : SliceMask} {n i : Nat}

theorem on_setEach {answer : Nat → Except Fault Bool} {f : Nat → Bool}
    (h : ∀ i < n, answer i = .ok (f i)) :
    (Bits.setEach answer (List.range n)).on (Bits.zero n) = (.ok (), (ofFn n f).toBits) := by
  obtain ⟨b, hfill, hwidth, hformed, hbits⟩ :=
    Bits.exists_on_setEach (List.range n) (Bits.wellFormed_zero n) (by simp [Bits.zero])
      fun i hi => h i (List.mem_range.mp hi)
  rw [hfill, eq_toBits (m := ofFn n f) hformed hwidth fun i (hi : i < n) => ?_]
  rw [hbits, if_pos (List.mem_range.mpr hi), allows_ofFn f hi]

theorem complement_eq_ofFn (m : SliceMask) :
    m.complement = ofFn m.length fun i => !m.allows i := by
  refine eq_of_allows rfl fun i (hi : i < m.length) => ?_
  rw [allows_complement, allows_ofFn _ hi]
  simp [hi]

theorem on_setBitByWord_toBits (m : SliceMask) (i : Nat) (x : Bool) :
    (Bits.setBitByWord i x).on m.toBits =
      match m.set i x with
      | .ok next => (.ok (), next.toBits)
      | .error fault => (.error fault, m.toBits) := by
  rw [Bits.on_setBitByWord]
  by_cases hi : i < m.length
  · obtain ⟨b, hb, hwidth⟩ := Bits.exists_setBit_eq_ok (b := m.toBits) hi x
    obtain ⟨next, hnext, hlength, hallows⟩ := exists_set_eq_ok hi x
    have hsame : b = next.toBits := by
      refine eq_toBits (Bits.wellFormed_of_setBit m.wellFormed_toBits hb)
        (hwidth.trans hlength.symm) fun j _ => ?_
      rw [Bits.testBit_toNat_setBit hb, hallows, testBit_toBits]
    rw [hb, hnext]
    dsimp only
    rw [hsame]
  · have hout := Nat.not_lt.mp hi
    rw [Bits.setBit_eq_error_iff.mpr ⟨hout, rfl⟩, set_eq_error_iff.mpr ⟨hout, rfl⟩]
    rfl

theorem listSet_toBits (m : SliceMask) (places : List Nat) (h : ∀ i ∈ places, i < m.length) :
    m.toBits.listSet places = .ok (places.filter m.allows) := by
  induction places with
  | nil => rfl
  | cons i rest ih =>
      rw [List.forall_mem_cons] at h
      rw [Bits.listSet, bit_toBits, isSet_eq_ok h.1, ih h.2, List.filter_cons]
      cases m.allows i <;> rfl

theorem countOnes_toBits (m : SliceMask) : m.toBits.countOnes = m.toList.length := by
  rw [Bits.countOnes_eq_countP m.wellFormed_toBits, List.countP_eq_length_filter]
  refine congrArg List.length (List.filter_congr fun i _ => ?_)
  rw [bit_toBits, Bool.eq_iff_iff, decide_eq_true_iff, isSet_eq_ok_true_iff]

theorem isAllByCount_toBits (h : m.length < UInt32.size) :
    m.toBits.isAllByCount = .ok m.isAll := by
  rw [Bits.isAllByCount, Bits.countOnes32_eq_ok m.wellFormed_toBits h, countOnes_toBits]
  change Except.ok (m.toList.length == m.length) = _
  have hsub : m.toList.Sublist (List.range m.length) := List.filter_sublist
  rw [Except.ok.injEq, Bool.eq_iff_iff, beq_iff_eq, isAll_iff]
  constructor
  · intro hcount
    exact hsub.eq_of_length (by rw [hcount, List.length_range])
  · intro hlist
    rw [hlist, List.length_range]

/-! ## Masks are sets -/

structure Builds (n : Nat) : Prop where
  ofFn : ∀ f, ∀ i < n, (ofFn n f).isSet i = .ok (f i)
  ofUInt64 : ∀ value : UInt64, ∀ i < n,
    (ofUInt64 n value).isSet i = .ok (decide (i < 64) && value.toNat.testBit i)
  ofList : ∀ slices : List Nat, ∀ i < n, (ofList n slices).isSet i = .ok (decide (i ∈ slices))
  ignored : ∀ slices : List Nat, SliceMask.ofList n (slices.filter (· < n)) =
    SliceMask.ofList n slices
  exchanged : (all n).complement = none n ∧ (none n).complement = all n
  byWords : (all n).toBits = Bits.ones n ∧ (none n).toBits = Bits.zero n ∧
    ∀ value, (SliceMask.ofUInt64 n value).toBits = Bits.ofUInt64 n value
  byBits : ∀ f, (Bits.setEach (fun i => .ok (f i)) (List.range n)).on (Bits.zero n) =
    (.ok (), (SliceMask.ofFn n f).toBits)

structure ShowsSet (m : SliceMask) : Prop where
  isSet : ∀ i fault, m.isSet i = .error fault ↔ m.length ≤ i ∧ fault = .bitOutOfRange i m.length
  listed : ∀ i, i ∈ m.toList ↔ m.isSet i = .ok true
  ascending : m.toList.Pairwise (· < ·)
  rebuilt : ofList m.length m.toList = m
  flipped : m.complement.length = m.length ∧
    ∀ i < m.length, m.complement.isSet i = (m.isSet i).map not
  involution : m.complement.complement = m
  isNone : m.isNone = true ↔ m.toList = []
  isAll : m.isAll = true ↔ m.toList = List.range m.length
  outside : ∀ i x fault,
    m.set i x = .error fault ↔ m.length ≤ i ∧ fault = .bitOutOfRange i m.length
  changed : ∀ i < m.length, ∀ x, ∃ next, m.set i x = .ok next ∧ next.length = m.length ∧
    ∀ j < m.length, next.isSet j = if j = i then .ok x else m.isSet j

structure ShowsBits (m : SliceMask) : Prop where
  width : m.toBits.width = m.length
  wellFormed : m.toBits.WellFormed
  bit : ∀ i, m.toBits.bit i = m.isSet i
  set : ∀ i x, (Bits.setBitByWord i x).on m.toBits =
    match m.set i x with
    | .ok next => (.ok (), next.toBits)
    | .error fault => (.error fault, m.toBits)
  complement : (Bits.setEach (fun i => do return !(← m.toBits.bit i)) (List.range m.length)).on
    (Bits.zero m.length) = (.ok (), m.complement.toBits)
  listed : m.toBits.listSet (List.range m.length) = .ok m.toList
  isNone : m.toBits.isZero = m.isNone
  isAll : m.length < 2 ^ 32 → m.toBits.isAllByCount = .ok m.isAll

theorem builds (n : Nat) : Builds n where
  ofFn f i hi := by rw [isSet_eq_ok hi, allows_ofFn f hi]
  ofUInt64 value i hi := by
    have hword : value.toNat.testBit i = true → i < 64 := fun hset =>
      Nat.lt_of_not_le fun hle => by
        rw [Nat.testBit_lt_two_pow (Nat.lt_of_lt_of_le value.toNat_lt
          (Nat.pow_le_pow_right (by decide) hle))] at hset
        contradiction
    rw [isSet_eq_ok hi, allows_ofUInt64, decide_eq_true hi, Bool.true_and]
    refine congrArg Except.ok (Bool.eq_iff_iff.mpr ?_)
    simpa using hword
  ofList slices i hi := by
    rw [isSet_eq_ok hi, SliceMask.ofList, allows_ofFn _ hi, List.contains_eq_mem]
  ignored slices := ofList_filter_lt n slices
  exchanged := ⟨complement_all n, complement_none n⟩
  byWords := ⟨toBits_all n, toBits_none n, toBits_ofUInt64 n⟩
  byBits f := on_setEach fun _ _ => rfl

theorem showsSet (m : SliceMask) : m.ShowsSet where
  isSet i fault := isSet_eq_error_iff
  listed i := by rw [mem_toList, isSet_eq_ok_true_iff]
  ascending := pairwise_toList m
  rebuilt := ofList_toList m
  flipped := by
    refine ⟨rfl, fun i hi => ?_⟩
    rw [isSet_eq_ok (m := m.complement) hi, isSet_eq_ok hi, allows_complement]
    simp [hi, Except.map]
  involution := complement_complement m
  isNone := isNone_iff
  isAll := isAll_iff
  outside i x fault := set_eq_error_iff
  changed i hi x := by
    obtain ⟨next, hnext, hlength, hallows⟩ := exists_set_eq_ok hi x
    refine ⟨next, hnext, hlength, fun j hj => ?_⟩
    rw [isSet_eq_ok (hlength ▸ hj), isSet_eq_ok hj, hallows]
    split <;> rfl

theorem showsBits (m : SliceMask) : m.ShowsBits where
  width := rfl
  wellFormed := wellFormed_toBits m
  bit := bit_toBits m
  set := on_setBitByWord_toBits m
  complement := by
    rw [complement_eq_ofFn]
    refine on_setEach fun i hi => ?_
    rw [bit_toBits, isSet_eq_ok hi]
    rfl
  listed := listSet_toBits m _ fun i hi => List.mem_range.mp hi
  isNone := isZero_toBits m
  isAll := isAllByCount_toBits

/-- Masks are finite sets, in every way of building and of asking them, and just the well-formed
vectors are their vectors.  Two of them are equal when they have the same length and the same
slices, and just then their vectors are. -/
theorem finite_set :
    (∀ n, Builds n) ∧
      (∀ m : SliceMask, m.ShowsSet ∧ m.ShowsBits) ∧
      (∀ b : Bits, b.WellFormed → ∃ m : SliceMask, m.toBits = b) ∧
      ∀ m k : SliceMask,
        (m = k ↔ m.length = k.length ∧ ∀ i, i ∈ m.toList ↔ i ∈ k.toList) ∧
          (m.toBits = k.toBits ↔ m = k) :=
  ⟨builds, fun m => ⟨m.showsSet, m.showsBits⟩, fun _ hb => exists_toBits_eq hb,
    fun _ _ => ⟨eq_iff_mem_toList, toBits_inj⟩⟩

theorem finite_set_wide :
    (Bits.ofUInt64 70 5).WellFormed ∧ (∃ m : SliceMask, m.toBits = Bits.ofUInt64 70 5) ∧
      (Bits.setBitByWord 70 true).on (ofUInt64 70 5).toBits =
        (.error (.bitOutOfRange 70 70), (ofUInt64 70 5).toBits) ∧
      ∃ next, (ofUInt64 70 5).set 69 true = .ok next ∧ next.isSet 69 = .ok true ∧
        next.isSet 2 = .ok true ∧ next.isSet 68 = .ok false := by
  have hformed : (Bits.ofUInt64 70 5).WellFormed := Bits.wellFormed_ofWords ..
  obtain ⟨hbuilds, hshows, hvectors, -⟩ := finite_set
  obtain ⟨hset, hbits⟩ := hshows (ofUInt64 70 5)
  obtain ⟨next, hnext, -, hslices⟩ := hset.changed 69 (by decide) true
  refine ⟨hformed, hvectors _ hformed, ?_, next, hnext, ?_, ?_, ?_⟩
  · rw [hbits.set, (hset.outside 70 true _).mpr ⟨by decide, rfl⟩]
    rfl
  · rw [hslices 69 (by decide), if_pos rfl]
  · rw [hslices 2 (by decide), if_neg (by decide), (hbuilds 70).ofUInt64 5 2 (by decide)]
    rfl
  · rw [hslices 68 (by decide), if_neg (by decide), (hbuilds 70).ofUInt64 5 68 (by decide)]
    rfl

end SliceMask

end BankedStore
