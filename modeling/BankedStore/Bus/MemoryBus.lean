import BankedStore.Bus.AddressMap
import BankedStore.Memory

/-!
A memory served directly on the bus.  A write stores the low bits of its data as a whole entry; a
read gives the low 64 bits of the stored word.
-/

namespace BankedStore

structure MemoryBus (t : ElementType) where
  memory : Memory t
  map : AddressMap
  idleCycles : UInt64 := 0
  deriving DecidableEq, Repr

namespace MemoryBus

variable {t : ElementType}

def written (b : MemoryBus t) (addr data : UInt64) : Except (Failure BusError) (Memory t) := do
  let l ← b.map.decode addr
  let value ← Failure.ofFault (Value.unpack t (.ofUInt64 t.width data))
  Failure.ofFault (b.memory.store l value)

def write (b : MemoryBus t) (addr data : UInt64) : Except (Failure BusError) Unit × MemoryBus t :=
  match b.written addr data with
  | .ok memory => (.ok (), { b with memory })
  | .error e => (.error e, b)

def read (b : MemoryBus t) (addr : UInt64) : Except (Failure BusError) UInt64 := do
  let l ← b.map.decode addr
  let value ← Failure.ofFault (b.memory.read l)
  return (value.pack t).toUInt64

instance : Bus (MemoryBus t) where
  write := write
  read b addr := (b.read addr, b)
  idle b cycles := { b with idleCycles := Size.saturatingAdd b.idleCycles cycles }

end MemoryBus

end BankedStore
