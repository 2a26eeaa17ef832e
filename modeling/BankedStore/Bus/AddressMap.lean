import BankedStore.Bus.Basic
import BankedStore.Geometry

/-!
Byte addresses of a banked memory.  The low bits of an address count bytes within a word and are
ignored; the bits above them are the number of the word.  Consecutive words lie in consecutive
banks: word `n` is entry `n / bankCount` of bank `n % bankCount`.
-/

namespace BankedStore

structure AddressMap where
  offsetBits : Nat
  bankCount : Nat
  entriesPerBank : Nat
  deriving DecidableEq, Repr

namespace AddressMap

/-- Each word takes the least power of two of bytes that holds it, and at least one. -/
def ofParts (wordWidth bankCount entriesPerBank : Nat) : Except Fault AddressMap :=
  if bankCount = 0 then .error .noBanks
  else .ok ⟨Size.log2Ceil ((wordWidth + 7) / 8), bankCount, entriesPerBank⟩

def ofGeometry (g : Geometry) : Except Fault AddressMap :=
  ofParts g.wordWidth g.bankCount g.entriesPerBank

def wordStride (m : AddressMap) : UInt64 :=
  1 <<< m.offsetBits.toUInt64

def capacity (m : AddressMap) : Except Fault Nat :=
  Size.mul m.entriesPerBank m.bankCount

def decode (m : AddressMap) (addr : UInt64) : Except (Failure BusError) Location := do
  let word := (addr >>> m.offsetBits.toUInt64).toNat
  let capacity ← Failure.ofFault m.capacity
  if word < capacity then return ⟨word / m.bankCount, word % m.bankCount⟩
  else throw (.refused (.addressOutOfRange addr capacity))

/-- The address of an entry's first byte.  A word number too large for it loses its high bits. -/
def encode (m : AddressMap) (l : Location) : Except Fault UInt64 := do
  let word ← Size.add (← Size.mul l.index m.bankCount) l.bank
  return word.toUInt64 <<< m.offsetBits.toUInt64

end AddressMap

end BankedStore
