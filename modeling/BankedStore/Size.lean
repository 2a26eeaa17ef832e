import BankedStore.Fault

/-!
Sizes, counts and positions are natural numbers below `2 ^ 64`.  Where a computed size can leave
that range the computation faults instead of wrapping; only cycle counts stop at the largest value
instead.  `log2Ceil` is the exponent of the least power of two that reaches a number; the width of a
selector and the stride of a word come from it.
-/

namespace BankedStore.Size

def limit : Nat := UInt64.size

def add (a b : Nat) : Except Fault Nat :=
  if a + b < limit then .ok (a + b) else .error .overflow

def mul (a b : Nat) : Except Fault Nat :=
  if a * b < limit then .ok (a * b) else .error .overflow

/-- The least `k` with `n ≤ 2 ^ k`. -/
def log2Ceil (n : Nat) : Nat :=
  if n ≤ 1 then 0 else (n - 1).log2 + 1

/-- Bits of a selector for one of `n` items: even a single item takes one bit. -/
def indexWidth (n : Nat) : Nat :=
  max 1 (log2Ceil n)

/-- The sum, or the largest count where the sum would be larger. -/
def saturatingAdd (a b : UInt64) : UInt64 :=
  (min (a.toNat + b.toNat) (limit - 1)).toUInt64

theorem add_eq_ok {a b : Nat} (h : a + b < limit) : add a b = .ok (a + b) := by
  simp [add, h]

theorem mul_eq_ok {a b : Nat} (h : a * b < limit) : mul a b = .ok (a * b) := by
  simp [mul, h]

theorem mul_add_eq_ok {a b c : Nat} (h : a * b + c < limit) :
    (do add (← mul a b) c) = .ok (a * b + c) := by
  rw [mul_eq_ok (by omega)]
  exact add_eq_ok h

end BankedStore.Size
