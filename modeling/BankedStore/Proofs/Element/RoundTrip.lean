import BankedStore.Element.Lemmas
import BankedStore.Proofs.Bits.Joining

/-!
# Reading packed values back

Every well-formed vector of a type's width is the packed form of the value that
is read from it.  The induction follows the type: the parts of a composite value
are read from neighbouring pieces of the vector, and those pieces join to it.
-/

namespace BankedStore.Value

theorem expectWidth_eq_ok {b : Bits} {width : Nat} (h : b.width = width) :
    expectWidth b width = .ok () := by
  rw [expectWidth, if_pos h]

theorem ofBitVec128_toBitVec128 {b : Bits} {width : Nat} (hwidth : b.width = width)
    (hwf : b.WellFormed) (hsmall : width ≤ 128) :
    Bits.ofBitVec128 width ((b.toBitVec128.setWidth width).setWidth 128) = b := by
  refine Bits.toNat_injective hwidth.symm ?_
  have hlt : b.toNat < 2 ^ width := hwidth ▸ Bits.wellFormed_iff_lt.mp hwf
  have hpow : 2 ^ width ≤ 2 ^ 128 := Nat.pow_le_pow_right (by decide) hsmall
  rw [Bits.toNat_ofBitVec128, BitVec.toNat_setWidth, BitVec.toNat_setWidth,
    Bits.toNat_toBitVec128]
  rw [Nat.mod_eq_of_lt (Nat.lt_of_lt_of_le hlt hpow), Nat.mod_eq_of_lt hlt,
    Nat.mod_eq_of_lt (Nat.lt_of_lt_of_le hlt hpow), Nat.mod_eq_of_lt hlt]

theorem exists_ofFnM_eq_ok {ε α : Type} {n : Nat} {f : Fin n → Except ε α}
    {P : Fin n → α → Prop} (h : ∀ i, ∃ a, f i = .ok a ∧ P i a) :
    ∃ v : Vector α n, Vector.ofFnM f = .ok v ∧ ∀ i, P i v[i] := by
  induction n with
  | zero => exact ⟨#v[], Vector.ofFnM_zero, fun i => i.elim0⟩
  | succ n ih =>
      obtain ⟨v, hv, hP⟩ := ih (f := fun i => f i.castSucc) (P := fun i => P i.castSucc)
        fun i => h i.castSucc
      obtain ⟨a, ha, hlast⟩ := h (Fin.last n)
      refine ⟨v.push a, ?_, ?_⟩
      · rw [Vector.ofFnM_succ, hv, ha]
        rfl
      · intro i
        induction i using Fin.lastCases with
        | last => simpa using hlast
        | cast i => simpa using hP i

def ReadsBack (t : ElementType) : Prop :=
  ∀ ⦃b : Bits⦄, t.width < Size.limit → b.width = t.width → b.WellFormed →
    ∃ v, unpack t b = .ok v ∧ pack t v = b

private theorem exists_unpackInt_eq_ok (width : Nat) {b : Bits} (hwidth : b.width = width)
    (hwf : b.WellFormed) (hsmall : width ≤ 128) :
    ∃ v, unpackInt width b = .ok v ∧ Bits.ofBitVec128 width (v.setWidth 128) = b := by
  refine ⟨b.toBitVec128.setWidth width, ?_, ofBitVec128_toBitVec128 hwidth hwf hsmall⟩
  rw [unpackInt, expectWidth_eq_ok hwidth]
  rfl

private theorem exists_unpackByte_eq_ok {b : Bits} (low : Nat) (h : low + 8 ≤ b.width)
    (hfits : b.width < Size.limit) :
    ∃ v : UInt8, unpackByte b low = .ok v ∧
      Bits.ofUInt64 8 v.toUInt64 = b.field low 8 := by
  obtain ⟨v, hv, hpack⟩ := exists_unpackInt_eq_ok 8 (b := b.field low 8) rfl
    (Bits.wellFormed_field ..) (by decide)
  refine ⟨.ofBitVec v, ?_, ?_⟩
  · rw [unpackByte, Bits.range_eq_ok low h hfits]
    change (do return UInt8.ofBitVec (← unpackInt 8 (b.field low 8))) = _
    rw [hv]
    rfl
  · rw [← hpack]
    refine Bits.toNat_injective rfl ?_
    rw [Bits.toNat_ofUInt64, Bits.toNat_ofBitVec128, BitVec.toNat_setWidth]
    change v.toNat % 2 ^ 8 = _
    omega

private theorem pack_bool {b : Bits} (hwidth : b.width = 1) (hwf : b.WellFormed)
    (hbit : 0 < b.width) : pack .bool (b.getBit 0 hbit) = b := by
  refine Bits.toNat_injective hwidth.symm ?_
  have hlt := Bits.wellFormed_iff_lt.mp hwf
  rw [hwidth] at hlt
  change (Bits.ofUInt64 1 (b.getBit 0 hbit).toUInt64).toNat = _
  rw [Bits.toNat_ofUInt64, Bits.getBit_eq_testBit, Nat.testBit_zero]
  obtain hzero | hone : b.toNat = 0 ∨ b.toNat = 1 := by omega
  · rw [hzero]
    rfl
  · rw [hone]
    rfl

private theorem pack_tag12 {b : Bits} (hwidth : b.width = 12) (hwf : b.WellFormed) :
    pack .tag12 (⟨b.toUInt64.toUInt16 &&& 0xFFF⟩ : Tag12) = b := by
  refine Bits.toNat_injective hwidth.symm ?_
  have hlt := Bits.wellFormed_iff_lt.mp hwf
  rw [hwidth] at hlt
  change (Bits.ofUInt64 12 (b.toUInt64.toUInt16 &&& 0xFFF &&& 0xFFF).toUInt64).toNat = _
  rw [Bits.toNat_ofUInt64, UInt16.toNat_toUInt64, UInt16.toNat_and, UInt16.toNat_and,
    UInt64.toNat_toUInt16, Bits.toNat_toUInt64]
  change (b.toNat % 2 ^ 64 % 2 ^ 16 &&& (2 ^ 12 - 1) &&& (2 ^ 12 - 1)) % 2 ^ 12 = b.toNat
  rw [Nat.and_two_pow_sub_one_eq_mod, Nat.and_two_pow_sub_one_eq_mod]
  omega

private theorem readsBack_bool : ReadsBack .bool := by
  intro b _ hwidth hwf
  have hwidth : b.width = 1 := hwidth
  have hbit : 0 < b.width := by omega
  refine ⟨b.getBit 0 hbit, ?_, pack_bool hwidth hwf hbit⟩
  change (do expectWidth b 1; b.bit 0) = _
  rw [expectWidth_eq_ok hwidth, Bits.bit, dif_pos hbit]
  rfl

private theorem readsBack_rgb : ReadsBack .rgb := by
  intro b _ hwidth hwf
  have hwidth : b.width = 24 := hwidth
  have hlimit : b.width < Size.limit := by rw [hwidth]; decide
  obtain ⟨r, hr, hpackr⟩ := exists_unpackByte_eq_ok 0 (by omega) hlimit
  obtain ⟨g, hg, hpackg⟩ := exists_unpackByte_eq_ok 8 (by omega) hlimit
  obtain ⟨c, hc, hpackc⟩ := exists_unpackByte_eq_ok 16 (by omega) hlimit
  refine ⟨(⟨r, g, c⟩ : Rgb), ?_, ?_⟩
  · rw [unpack, hr, hg, hc]
    rfl
  · change Bits.concat [Bits.ofUInt64 8 r.toUInt64, Bits.ofUInt64 8 g.toUInt64,
      Bits.ofUInt64 8 c.toUInt64] = b
    rw [hpackr, hpackg, hpackc]
    exact Bits.concat_field_triple hwf hwidth

private theorem readsBack_array {e : ElementType} (he : ReadsBack e) (n : Nat) :
    ReadsBack (.array e n) := by
  intro b hfits hwidth hwf
  have hlimit : b.width < Size.limit := hwidth ▸ hfits
  have hwidth : b.width = e.width * n := hwidth
  have hcount : b.width = n * e.width := hwidth.trans (Nat.mul_comm ..)
  have hinside : ∀ i : Fin n, i * e.width + e.width ≤ b.width := by
    intro i
    rw [hcount, ← Nat.succ_mul]
    exact Nat.mul_le_mul_right e.width i.isLt
  have hpart : ∀ i : Fin n, ∃ v,
      (do unpack e (← b.range (i * e.width) e.width)) = .ok v ∧
        pack e v = b.field (i * e.width) e.width := by
    intro i
    rw [Bits.range_eq_ok _ (hinside i) hlimit]
    exact he (by have := hinside i; omega) rfl (Bits.wellFormed_field ..)
  obtain ⟨v, hv, hpack⟩ := exists_ofFnM_eq_ok hpart
  refine ⟨v, ?_, ?_⟩
  · rw [unpack, expectWidth_eq_ok hwidth]
    exact hv
  · have hparts : v.toList.map (pack e) =
        (List.range n).map fun i => b.field (0 + i * e.width) e.width := by
      apply List.ext_getElem (by simp)
      intro i hi hi'
      have := hpack ⟨i, by simpa using hi⟩
      simpa using this
    change Bits.concat (v.toList.map (pack e)) = b
    rw [hparts, Bits.concat_field_range, ← hcount, Bits.field_self hwf]

private theorem readsBack_pair {s t : ElementType} (hs : ReadsBack s) (ht : ReadsBack t) :
    ReadsBack (.pair s t) := by
  intro b hfits hwidth hwf
  have hlimit : b.width < Size.limit := hwidth ▸ hfits
  have hwidth : b.width = s.width + t.width := hwidth
  obtain ⟨x, hx, hpackx⟩ := hs (b := b.field 0 s.width) (by omega) rfl
    (Bits.wellFormed_field ..)
  obtain ⟨y, hy, hpacky⟩ := ht (b := b.field s.width t.width) (by omega) rfl
    (Bits.wellFormed_field ..)
  refine ⟨(x, y), ?_, ?_⟩
  · rw [unpack, expectWidth_eq_ok hwidth, Bits.range_eq_ok 0 (by omega) hlimit,
      Bits.range_eq_ok s.width (by omega) hlimit]
    change (do let x ← unpack s _; return (x, ← unpack t _)) = _
    rw [hx, hy]
    rfl
  · change Bits.concat [pack s x, pack t y] = b
    rw [hpackx, hpacky]
    exact Bits.concat_field_pair hwf hwidth

private theorem readsBack_triple {s t u : ElementType} (hs : ReadsBack s) (ht : ReadsBack t)
    (hu : ReadsBack u) : ReadsBack (.triple s t u) := by
  intro b hfits hwidth hwf
  have hlimit : b.width < Size.limit := hwidth ▸ hfits
  have hwidth : b.width = s.width + t.width + u.width := hwidth
  obtain ⟨x, hx, hpackx⟩ := hs (b := b.field 0 s.width) (by omega) rfl
    (Bits.wellFormed_field ..)
  obtain ⟨y, hy, hpacky⟩ := ht (b := b.field s.width t.width) (by omega) rfl
    (Bits.wellFormed_field ..)
  obtain ⟨z, hz, hpackz⟩ := hu (b := b.field (s.width + t.width) u.width) (by omega) rfl
    (Bits.wellFormed_field ..)
  refine ⟨(x, y, z), ?_, ?_⟩
  · rw [unpack, expectWidth_eq_ok hwidth, Bits.range_eq_ok 0 (by omega) hlimit,
      Bits.range_eq_ok s.width (by omega) hlimit,
      Bits.range_eq_ok (s.width + t.width) (by omega) hlimit]
    change (do
      let x ← unpack s _
      let y ← unpack t _
      return (x, y, ← unpack u _)) = _
    rw [hx, hy, hz]
    rfl
  · change Bits.concat [pack s x, pack t y, pack u z] = b
    rw [hpackx, hpacky, hpackz]
    exact Bits.concat_field_triple hwf hwidth

theorem readsBack (t : ElementType) : ReadsBack t := by
  induction t with
  | bool => exact readsBack_bool
  | uint w | sint w =>
      intro b _ hwidth hwf
      exact exists_unpackInt_eq_ok _ hwidth hwf (by cases w <;> decide)
  | float32 | float64 =>
      intro b _ hwidth hwf
      exact exists_unpackInt_eq_ok _ hwidth hwf (by decide)
  | rgb => exact readsBack_rgb
  | tag12 => exact fun b _ hwidth hwf => ⟨_, rfl, pack_tag12 hwidth hwf⟩
  | array e n ih => exact readsBack_array ih n
  | pair s t ihs iht => exact readsBack_pair ihs iht
  | triple s t u ihs iht ihu => exact readsBack_triple ihs iht ihu

end BankedStore.Value
