import Mathlib.Order.Bounds.Basic
import BankedStore.Size.Lemmas
import BankedStore.Proofs.Memory.Shape

/-!
# Widths of selectors

A selector has the fewest bits that tell its items apart, and never less than one.
Counting the zeros above the highest bit of the last item gives that width.  So the
entries and the banks of a validated shape all have their numbers, and one bit less
would leave some without.
-/

namespace BankedStore

namespace Size

theorem indexWidth_le_iff {n width : Nat} (hwidth : 1 ≤ width) :
    indexWidth n ≤ width ↔ n ≤ 2 ^ width := by
  rw [indexWidth, Nat.max_le, and_iff_right hwidth]
  refine ⟨fun hle => ?_, log2Ceil_le⟩
  exact (le_two_pow_log2Ceil n).trans (Nat.pow_le_pow_right (by decide) hle)

theorem one_le_indexWidth (n : Nat) : 1 ≤ indexWidth n :=
  Nat.le_max_left ..

theorem le_two_pow_indexWidth (n : Nat) : n ≤ 2 ^ indexWidth n :=
  (indexWidth_le_iff (one_le_indexWidth n)).mp le_rfl

theorem isLeast_indexWidth (n : Nat) :
    IsLeast {width | 1 ≤ width ∧ n ≤ 2 ^ width} (indexWidth n) :=
  ⟨⟨one_le_indexWidth n, le_two_pow_indexWidth n⟩,
    fun _ h => (indexWidth_le_iff h.1).mpr h.2⟩

theorem monotone_indexWidth : Monotone indexWidth := fun _ n h =>
  (indexWidth_le_iff (one_le_indexWidth n)).mpr (h.trans (le_two_pow_indexWidth n))

theorem indexWidth_le_of_lt_limit {n : Nat} (h : n < limit) : indexWidth n ≤ 64 :=
  (indexWidth_le_iff (by decide)).mpr (Nat.le_of_lt h)

/-! ## Leading zeros -/

def indexWidthByZeros (n : UInt64) : Nat :=
  if n ≤ 2 then 1 else 64 - (n - 1).toBitVec.clz.toNat

theorem indexWidthByZeros_eq (n : UInt64) : indexWidthByZeros n = indexWidth n.toNat := by
  unfold indexWidthByZeros
  split
  · rename_i htwo
    have hle : indexWidth n.toNat ≤ 1 := (indexWidth_le_iff le_rfl).mpr htwo
    exact Nat.le_antisymm (one_le_indexWidth _) hle
  · rename_i htwo
    have htwo : 2 < n.toNat := Nat.not_le.mp htwo
    set last := (n - 1).toBitVec
    have hvalue : last.toNat = n.toNat - 1 := by
      change (n - 1).toNat = _
      rw [UInt64.toNat_sub_of_le _ _ (UInt64.le_iff_toNat_le.mpr (by change 1 ≤ n.toNat; omega))]
      rfl
    have hne : last ≠ 0#64 := by
      rw [ne_eq, ← BitVec.toNat_inj, hvalue]
      change n.toNat - 1 ≠ 0
      omega
    have hlow : 2 ^ (63 - last.clz.toNat) ≤ last.toNat :=
      BitVec.two_pow_sub_clz_le_toNat_of_ne_zero (by decide) hne
    have hhigh : last.toNat < 2 ^ (64 - last.clz.toNat) := BitVec.toNat_lt_two_pow_sub_clz
    have hzeros : last.clz.toNat ≤ 62 := by
      by_contra hmany
      have hsmall : 2 ^ (64 - last.clz.toNat) ≤ 2 ^ 1 := Nat.pow_le_pow_right (by decide) (by omega)
      omega
    have hle : indexWidth n.toNat ≤ 64 - last.clz.toNat :=
      (indexWidth_le_iff (by omega)).mpr (by omega)
    have hnot : ¬ indexWidth n.toNat ≤ 63 - last.clz.toNat := by
      rw [indexWidth_le_iff (by omega)]
      omega
    omega

/-! ## Enough and no more -/

structure Selects (width count : Nat) : Prop where
  fits : ∀ item < count, item < 2 ^ width
  needed : width ≠ 1 → ∃ item < count, 2 ^ (width - 1) ≤ item

theorem selects_indexWidth (n : Nat) : Selects (indexWidth n) n where
  fits item hitem := Nat.lt_of_lt_of_le hitem (le_two_pow_indexWidth n)
  needed hwidth := by
    have hone := one_le_indexWidth n
    have hshort : ¬ n ≤ 2 ^ (indexWidth n - 1) := by
      rw [← indexWidth_le_iff (by omega)]
      omega
    exact ⟨_, Nat.not_le.mp hshort, le_rfl⟩

theorem indexWidth_le_of_validate {c : Config} {wordWidth : Nat} {g : Geometry}
    (h : c.validate wordWidth = .ok g) (hentries : c.totalEntries < limit) :
    g.localIndexWidth ≤ 64 ∧ g.bankIndexWidth ≤ 64 := by
  obtain ⟨htotal, -, -, -, hsplit, -, rfl⟩ := Config.validate_eq_ok_iff.mp h
  have hlocal : c.totalEntries / c.bankCount ≤ c.totalEntries := Nat.div_le_self ..
  have hbanks : c.bankCount ≤ c.totalEntries := Nat.le_of_dvd htotal hsplit
  exact ⟨indexWidth_le_of_lt_limit (Nat.lt_of_le_of_lt hlocal hentries),
    indexWidth_le_of_lt_limit (Nat.lt_of_le_of_lt hbanks hentries)⟩

/-- The width of a selector is the least sufficient one.  In a validated shape every entry of a bank
and every bank has a number of that width, and not all would have one with a bit less. -/
theorem indexWidth_least :
    (∀ n, IsLeast {width | 1 ≤ width ∧ n ≤ 2 ^ width} (indexWidth n)) ∧
      (∀ n : UInt64, indexWidthByZeros n = indexWidth n.toNat) ∧
      Monotone indexWidth ∧
      (∀ n < limit, indexWidth n ≤ 64) ∧
      ∀ (c : Config) (wordWidth : Nat) (g : Geometry), c.validate wordWidth = .ok g →
        Selects g.localIndexWidth g.entriesPerBank ∧ Selects g.bankIndexWidth g.bankCount ∧
          (c.totalEntries < limit → g.localIndexWidth ≤ 64 ∧ g.bankIndexWidth ≤ 64) :=
  ⟨isLeast_indexWidth, indexWidthByZeros_eq, monotone_indexWidth,
    fun _ => indexWidth_le_of_lt_limit, fun _ _ g h =>
      ⟨selects_indexWidth g.entriesPerBank, selects_indexWidth g.bankCount,
        indexWidth_le_of_validate h⟩⟩

/-- Five entries a bank need three bits, and three banks two.  Just past half the range all 64 bits
are needed. -/
theorem indexWidth_least_uneven :
    Config.validate ⟨15, 3, 2⟩ 8 = .ok ⟨5, 3, 2, 8⟩ ∧ 15 < limit ∧
      Selects 3 5 ∧ Selects 2 3 ∧ (3 ≤ 64 ∧ 2 ≤ 64) ∧
      2 ^ 63 + 1 < limit ∧ indexWidthByZeros 0x8000000000000001 = 64 ∧
      indexWidth (2 ^ 63 + 1) ≤ 64 := by
  obtain ⟨-, hzeros, -, hmost, hshape⟩ := indexWidth_least
  have hvalid : Config.validate ⟨15, 3, 2⟩ 8 = .ok ⟨5, 3, 2, 8⟩ := by decide
  obtain ⟨hlocal, hbanks, hfits⟩ := hshape _ _ _ hvalid
  exact ⟨hvalid, by decide, hlocal, hbanks, hfits (by decide), by decide,
    (hzeros _).trans (by decide +kernel), hmost _ (by decide)⟩

end Size

end BankedStore
