import BankedStore.Bits.Basic

/-!
A slice mask chooses the slices of an entry that a write commits.  It is a finite set of slice
numbers below its length; slice 0 is the least significant.
-/

namespace BankedStore

structure SliceMask where
  length : Nat
  enabled : BitVec length
  deriving DecidableEq, Repr

namespace SliceMask

def all (n : Nat) : SliceMask :=
  ⟨n, BitVec.allOnes n⟩

def none (n : Nat) : SliceMask :=
  ⟨n, 0⟩

def ofUInt64 (n : Nat) (value : UInt64) : SliceMask :=
  ⟨n, value.toBitVec.setWidth n⟩

def ofFn (n : Nat) (f : Nat → Bool) : SliceMask :=
  ⟨n, (BitVec.iunfoldr (fun i (_ : Unit) => ((), f i)) ()).2⟩

/-- Exactly the listed slices; what is listed at or past the length is ignored. -/
def ofList (n : Nat) (slices : List Nat) : SliceMask :=
  ofFn n slices.contains

def allows (m : SliceMask) (i : Nat) : Bool :=
  m.enabled.getLsbD i

def isSet (m : SliceMask) (i : Nat) : Except Fault Bool :=
  if i < m.length then .ok (m.allows i) else .error (.bitOutOfRange i m.length)

def set (m : SliceMask) (i : Nat) (value : Bool) : Except Fault SliceMask :=
  if i < m.length then
    let bit := BitVec.twoPow m.length i
    .ok ⟨m.length, if value then m.enabled ||| bit else m.enabled &&& ~~~bit⟩
  else .error (.bitOutOfRange i m.length)

def complement (m : SliceMask) : SliceMask :=
  ⟨m.length, ~~~m.enabled⟩

def toList (m : SliceMask) : List Nat :=
  (List.range m.length).filter m.allows

def isEmpty (m : SliceMask) : Bool :=
  m.length == 0

def isNone (m : SliceMask) : Bool :=
  m.enabled == 0

def isAll (m : SliceMask) : Bool :=
  m.enabled == BitVec.allOnes m.length

def toBits (m : SliceMask) : Bits :=
  Bits.ofNat m.length m.enabled.toNat

/-- One digit a slice, the most significant slice first. -/
def describe (m : SliceMask) : String :=
  let digits := (List.range m.length).reverse.map fun i => if m.allows i then '1' else '0'
  "WriteMask(" ++ String.ofList digits ++ ")"

/-! A mask is its length and the slices it chooses. -/

theorem eq_of_allows {m n : SliceMask} (length : m.length = n.length)
    (h : ∀ i, i < m.length → m.allows i = n.allows i) : m = n := by
  obtain ⟨len, x⟩ := m
  obtain ⟨_, y⟩ := n
  cases length
  congr 1
  exact BitVec.eq_of_getLsbD_eq h

theorem allows_of_length_le {m : SliceMask} {i : Nat} (h : m.length ≤ i) : m.allows i = false :=
  BitVec.getLsbD_of_ge _ _ h

theorem lt_length_of_allows {m : SliceMask} {i : Nat} (h : m.allows i = true) : i < m.length :=
  Nat.lt_of_not_le fun hle => Bool.false_ne_true ((allows_of_length_le hle).symm.trans h)

theorem allows_all (n i : Nat) : (all n).allows i = decide (i < n) :=
  BitVec.getLsbD_allOnes

theorem allows_none (n i : Nat) : (none n).allows i = false :=
  BitVec.getLsbD_zero

theorem allows_ofUInt64 (n : Nat) (value : UInt64) (i : Nat) :
    (ofUInt64 n value).allows i = (decide (i < n) && value.toNat.testBit i) :=
  BitVec.getLsbD_setWidth ..

theorem allows_ofFn {n i : Nat} (f : Nat → Bool) (h : i < n) : (ofFn n f).allows i = f i := by
  unfold ofFn allows
  rw [BitVec.iunfoldr_getLsbD (fun _ => ()) ⟨i, h⟩]
  intro
  trivial

theorem allows_complement (m : SliceMask) (i : Nat) :
    m.complement.allows i = (decide (i < m.length) && !m.allows i) :=
  BitVec.getLsbD_not

end SliceMask

end BankedStore
