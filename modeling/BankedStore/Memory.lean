import BankedStore.Bank
import BankedStore.EntryStore
import BankedStore.Element.Packing

/-!
A memory of typed entries, spread over banks and cut into slices.  A fresh memory holds the default
value of its element type everywhere; clearing it sets every bit to zero instead.  A write commits
the slices its mask chooses and keeps the others.  `read`, `write` and `writeBits` leave it to the
caller to stay inside the memory and fault outside; `tryRead` and `tryWrite` refuse instead.
-/

namespace BankedStore

structure Memory (t : ElementType) where
  config : Config
  geometry : Geometry
  banks : Array Bank
  deriving DecidableEq, Repr

namespace Memory

variable {t : ElementType}

def new (t : ElementType) (config : Config) : Except (Failure Rejection) (Memory t) := do
  let geometry ← Failure.ofRefusal (config.validate t.width)
  let pattern ← Failure.ofFault ((Value.pack t default).chunks geometry.sliceWidth)
  let bank ← Failure.ofFault (Bank.new geometry.entriesPerBank pattern)
  return ⟨config, geometry, Array.replicate geometry.bankCount bank⟩

/-- The number of cleared bits, which would only be logged, is not added up.  The sum could overflow
only where the bits of the memory cannot be counted. -/
def clear (m : Memory t) : Memory t :=
  { m with banks := m.banks.map (·.fill (.zero m.geometry.sliceWidth)) }

def expectInside (m : Memory t) (l : Location) : Except Fault Unit :=
  if m.geometry.contains l then .ok ()
  else .error (.entryOutside l.index l.bank m.geometry.entriesPerBank m.geometry.bankCount)

def bank (m : Memory t) (i : Nat) : Except Fault Bank :=
  match m.banks[i]? with
  | some bank => .ok bank
  | none => .error .indexOutOfBounds

/-- The stored word, slice 0 in the low bits. -/
def readBits (m : Memory t) (l : Location) : Except Fault Bits := do
  m.expectInside l
  let first ← m.geometry.slot l.index 0
  let bank ← m.bank l.bank
  return Bits.concat (← bank.entry first m.geometry.byteEnables)

def read (m : Memory t) (l : Location) : Except Fault (Value t) := do
  Value.unpack t (← m.readBits l)

def slice (m : Memory t) (l : Location) (slice : Nat) : Except Fault Bits := do
  m.expectInside l
  if slice < m.geometry.byteEnables then
    let bank ← m.bank l.bank
    bank.slice (← m.geometry.slot l.index slice)
  else throw (.sliceOutOfRange slice m.geometry.byteEnables)

def writeBits (m : Memory t) (l : Location) (word : Bits) (mask : SliceMask) :
    Except Fault (Memory t) := do
  m.expectInside l
  Value.expectWidth word m.geometry.wordWidth
  if mask.length = m.geometry.byteEnables then
    let first ← m.geometry.slot l.index 0
    let bank ← m.bank l.bank
    let written ← bank.commit first mask (← word.chunks m.geometry.sliceWidth)
    return { m with banks := m.banks.setIfInBounds l.bank written }
  else throw (.maskLengthMismatch mask.length m.geometry.byteEnables)

/-- A write that is not enabled looks at none of its arguments. -/
def write (m : Memory t) (l : Location) (value : Value t) (mask : SliceMask) (enable : Bool) :
    Except Fault (Memory t) :=
  if enable then m.writeBits l (value.pack t) mask else .ok m

def store (m : Memory t) (l : Location) (value : Value t) : Except Fault (Memory t) :=
  m.write l value (.all m.geometry.byteEnables) true

def tryRead (m : Memory t) (l : Location) : Except (Failure Rejection) (Value t) := do
  Failure.ofRefusal (m.geometry.check l)
  Failure.ofFault (m.read l)

/-- The location and the mask are checked whether or not the write is enabled. -/
def tryWrite (m : Memory t) (l : Location) (value : Value t) (mask : SliceMask) (enable : Bool) :
    Except (Failure Rejection) (Memory t) := do
  Failure.ofRefusal (m.geometry.check l)
  if mask.length = m.geometry.byteEnables then Failure.ofFault (m.write l value mask enable)
  else throw (.refused (.maskLengthMismatch mask.length m.geometry.byteEnables))

instance : EntryStore (Memory t) (Value t) where
  slicesPerEntry m := m.geometry.byteEnables
  read := read
  write := write
  clear := clear

def describe (m : Memory t) : String :=
  s!"BankedMemory \x7b geometry: {m.geometry.describe}, .. \x7d"

end Memory

end BankedStore
