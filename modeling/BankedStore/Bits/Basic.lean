import BankedStore.Size

/-!
Fixed-width bit vectors, held in 64-bit words with the lowest word first: bit `i` of a vector is bit
`i % 64` of its word `i / 64`.  The last word may have room above the width.  Every operation here
keeps that padding clear, so `toNat` stays below `2 ^ width` (`WellFormed`) and two vectors of one
width are equal exactly when they hold the same bits.

A piece of up to 64 bits is gathered from one word or from two neighbours (`chunk`).  Extracting,
overwriting and joining are built from such pieces; the checked operations `range`, `setRange` and
`chunks` fault where a piece would leave the vector.
-/

namespace BankedStore

def wordCount (width : Nat) : Nat :=
  (width + 63) / 64

structure Bits where
  width : Nat
  words : Vector UInt64 (wordCount width)
  deriving DecidableEq, Repr

namespace Bits

def toNat (b : Bits) : Nat :=
  b.words.toList.foldr (fun word high => word.toNat + UInt64.size * high) 0

/-- No bit is set at or above the width. -/
def WellFormed (b : Bits) : Prop :=
  b.toNat >>> b.width = 0

instance (b : Bits) : Decidable b.WellFormed :=
  inferInstanceAs (Decidable (b.toNat >>> b.width = 0))

/-- The word whose low `n` bits are set, which from 64 on is all of them. -/
def lowMask (n : Nat) : UInt64 :=
  if n < 64 then (1 <<< n.toUInt64) - 1 else ~~~0

/-! ## Construction -/

def ofWords (width : Nat) (f : Nat → UInt64) : Bits :=
  ⟨width, Vector.ofFn fun i => f i &&& lowMask (width - 64 * i)⟩

def zero (width : Nat) : Bits :=
  ⟨width, Vector.replicate (wordCount width) 0⟩

def ones (width : Nat) : Bits :=
  ofWords width fun _ => ~~~0

def ofNat (width value : Nat) : Bits :=
  ofWords width fun i => (value >>> (64 * i)).toUInt64

def ofUInt64 (width : Nat) (value : UInt64) : Bits :=
  ofWords width fun i => if i = 0 then value else 0

def ofBitVec128 (width : Nat) (value : BitVec 128) : Bits :=
  ofWords width fun i => ⟨(value >>> (64 * i)).setWidth 64⟩

/-! ## Single bits and whole numbers -/

def getBit (b : Bits) (i : Nat) (h : i < b.width) : Bool :=
  have : i / 64 < wordCount b.width := by unfold wordCount; omega
  (b.words[i / 64] >>> (i % 64).toUInt64) &&& 1 == 1

def bit (b : Bits) (i : Nat) : Except Fault Bool :=
  if h : i < b.width then .ok (b.getBit i h) else .error (.bitOutOfRange i b.width)

def setBit (b : Bits) (i : Nat) (value : Bool) : Except Fault Bits :=
  if h : i < b.width then
    have : i / 64 < wordCount b.width := by unfold wordCount; omega
    let mask : UInt64 := 1 <<< (i % 64).toUInt64
    let word := b.words[i / 64]
    .ok ⟨b.width, b.words.set (i / 64) (if value then word ||| mask else word &&& ~~~mask)⟩
  else .error (.bitOutOfRange i b.width)

def toUInt64 (b : Bits) : UInt64 :=
  b.words[0]?.getD 0

def toBitVec128 (b : Bits) : BitVec 128 :=
  (b.words[1]?.getD 0).toBitVec ++ (b.words[0]?.getD 0).toBitVec

def isZero (b : Bits) : Bool :=
  b.words.all (· == 0)

def wordOnes (word : UInt64) : Nat :=
  (List.range 64).countP word.toBitVec.getLsbD

def countOnes (b : Bits) : Nat :=
  b.words.toList.foldr (fun word count => wordOnes word + count) 0

/-! ## Pieces -/

/-- The `n` bits from `low` on, for `n ≤ 64`. -/
def chunk (b : Bits) (low n : Nat) (h : low + n ≤ b.width) : UInt64 :=
  if hn : n = 0 then 0
  else
    have : low / 64 < wordCount b.width := by unfold wordCount; omega
    let word := b.words[low / 64] >>> (low % 64).toUInt64
    if hs : low % 64 + n ≤ 64 then word &&& lowMask n
    else
      have : low / 64 + 1 < wordCount b.width := by unfold wordCount; omega
      (word ||| b.words[low / 64 + 1] <<< (64 - low % 64).toUInt64) &&& lowMask n

def extract (b : Bits) (low width : Nat) (h : low + width ≤ b.width) : Bits :=
  ⟨width, Vector.ofFn fun i =>
    b.chunk (low + 64 * i) (min 64 (width - 64 * i))
      (by have := i.isLt; unfold wordCount at this; omega)⟩

def overwrite (b : Bits) (low : Nat) (part : Bits) : Bits :=
  ⟨b.width, Vector.ofFn fun i =>
    let first := max (64 * i.val) low
    let last := min (64 * i.val + 64) (low + part.width)
    if h : first < last then
      let shift := (first - 64 * i.val).toUInt64
      let piece := part.chunk (first - low) (last - first) (by omega)
      (b.words[i] &&& ~~~(lowMask (last - first) <<< shift)) ||| (piece <<< shift)
    else b.words[i]⟩

def append (low high : Bits) : Bits :=
  ((zero (low.width + high.width)).overwrite 0 low).overwrite low.width high

/-- All parts in one vector, the first part lowest. -/
def concat : List Bits → Bits
  | [] => zero 0
  | part :: parts => part.append (concat parts)

/-! ## Checked pieces -/

/-- The end of the piece is computed first, so it overflows before it is compared. -/
def range (b : Bits) (low width : Nat) : Except Fault Bits :=
  if low + width < Size.limit then
    if h : low + width ≤ b.width then .ok (b.extract low width h)
    else .error (.rangeOutOfBounds low (low + width) b.width)
  else .error .overflow

def setRange (b : Bits) (low : Nat) (part : Bits) : Except Fault Bits :=
  if low + part.width < Size.limit then
    if low + part.width ≤ b.width then .ok (b.overwrite low part)
    else .error (.rangeOutOfBounds low (low + part.width) b.width)
  else .error .overflow

def chunks (b : Bits) (size : Nat) : Except Fault (List Bits) :=
  if h : 0 < size ∧ b.width % size = 0 then
    .ok (List.ofFn fun i : Fin (b.width / size) =>
      b.extract (i * size) size (by
        have := Nat.mul_le_mul_right size (Nat.succ_le_of_lt i.isLt)
        rw [Nat.succ_mul, Nat.div_mul_cancel (Nat.dvd_of_mod_eq_zero h.2)] at this
        exact this))
  else .error (.unevenChunks size b.width)

end Bits

end BankedStore
