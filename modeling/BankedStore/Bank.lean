import BankedStore.SliceMask

/-!
A bank is a run of slots, each holding one slice.  A fresh bank repeats the slices of one entry.  An
entry is reached through the window of slots from `first` on; a window that leaves the bank faults.
-/

namespace BankedStore

structure Bank where
  slices : Array Bits
  deriving DecidableEq, Repr

namespace Bank

/-- `entries` copies of the pattern, one after the other.  Storage is taken to be unlimited, so any
number of slots that is a size can be had. -/
def new (entries : Nat) (pattern : List Bits) : Except Fault Bank := do
  let _ ← Size.mul entries pattern.length
  return ⟨(Array.replicate entries pattern.toArray).flatten⟩

def slots (b : Bank) : Nat :=
  b.slices.size

def slice (b : Bank) (slot : Nat) : Except Fault Bits :=
  match b.slices[slot]? with
  | some slice => .ok slice
  | none => .error .indexOutOfBounds

/-- The end of the window is computed first, so it overflows before it is compared. -/
def checkWindow (b : Bank) (first count : Nat) : Except Fault Unit :=
  if first + count < Size.limit then
    if first + count ≤ b.slots then .ok () else .error .indexOutOfBounds
  else .error .overflow

def entry (b : Bank) (first count : Nat) : Except Fault (List Bits) := do
  b.checkWindow first count
  return (b.slices.extract first (first + count)).toList

def assign (b : Bank) (first count offset : Nat) (slice : Bits) : Except Fault Bank := do
  b.checkWindow first count
  if offset < count then return ⟨b.slices.setIfInBounds (first + offset) slice⟩
  else throw .indexOutOfBounds

/-- The bank with those slots from `first` on replaced that the mask chooses. -/
def commit (b : Bank) (first : Nat) (mask : SliceMask) (entry : List Bits) : Except Fault Bank := do
  b.checkWindow first mask.length
  return ⟨entry.zipIdx.foldl
    (fun stored (slice, i) =>
      if mask.allows i then stored.setIfInBounds (first + i) slice else stored)
    b.slices⟩

def fill (b : Bank) (slice : Bits) : Bank :=
  ⟨b.slices.map fun _ => slice⟩

def memoryBits (b : Bank) : Nat :=
  b.slices.toList.foldr (fun slice total => slice.width + total) 0

end Bank

end BankedStore
