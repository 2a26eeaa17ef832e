import Mathlib.Algebra.Order.Ring.Nat
import BankedStore.Size

/-!
`log2Ceil` is the least exponent that reaches a number, and a saturating sum is the sum or the
largest count.
-/

namespace BankedStore.Size

theorem le_two_pow_log2Ceil (n : Nat) : n ≤ 2 ^ log2Ceil n := by
  unfold log2Ceil
  split
  · simpa using ‹n ≤ 1›
  · have := Nat.lt_log2_self (n := n - 1)
    omega

theorem log2Ceil_le {n k : Nat} (h : n ≤ 2 ^ k) : log2Ceil n ≤ k := by
  unfold log2Ceil
  split
  · exact Nat.zero_le k
  · have : (n - 1).log2 < k := (Nat.log2_lt (by omega)).2 (by omega)
    omega

theorem two_pow_log2Ceil_le {n : Nat} (h : 2 ≤ n) : 2 ^ log2Ceil n ≤ 2 * (n - 1) := by
  have hlog := Nat.log2_self_le (n := n - 1) (by omega)
  rw [log2Ceil, if_neg (by omega), Nat.pow_succ]
  omega

theorem toNat_saturatingAdd (a b : UInt64) :
    (saturatingAdd a b).toNat = min (a.toNat + b.toNat) (limit - 1) := by
  have hlt : min (a.toNat + b.toNat) (limit - 1) < 2 ^ 64 :=
    Nat.lt_of_le_of_lt (Nat.min_le_right ..) (by decide)
  exact Nat.mod_eq_of_lt hlt

theorem toNat_le_largest (n : UInt64) : n.toNat ≤ limit - 1 :=
  Nat.le_pred_of_lt n.toNat_lt

theorem saturatingAdd_zero (n : UInt64) : saturatingAdd n 0 = n := by
  refine UInt64.toNat_inj.mp ?_
  rw [toNat_saturatingAdd, UInt64.toNat_zero, Nat.add_zero, Nat.min_eq_left (toNat_le_largest n)]

theorem saturatingAdd_assoc (a b c : UInt64) :
    saturatingAdd (saturatingAdd a b) c = saturatingAdd a (saturatingAdd b c) := by
  refine UInt64.toNat_inj.mp ?_
  simp only [toNat_saturatingAdd]
  omega

end BankedStore.Size
