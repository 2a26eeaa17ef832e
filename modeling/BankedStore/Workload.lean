import BankedStore.Bits.Basic
import BankedStore.Bus.AddressMap
import BankedStore.Script.Command

/-!
Repeatable workloads.  All streams come from one linear congruential generator, so a seed fixes
them.  The reference script writes words chosen by such a stream and then reads each of them back,
expecting what was written to it last.
-/

namespace BankedStore.Workload

def multiplier : UInt64 := 6364136223846793005

def increment : UInt64 := 1442695040888963407

def advance (state : UInt64) : UInt64 :=
  state * multiplier + increment

/-- The next `n` outputs of a generator, each the upper 48 bits of its state. -/
def stream (state : UInt64) : Nat → List UInt64
  | 0 => []
  | n + 1 => (advance state >>> 16) :: stream (advance state) n

def accessPattern (words length : Nat) (seed : UInt64) : Except Fault (List Nat) :=
  if words = 0 ∧ 0 < length then .error .divisionByZero
  else .ok ((stream seed length).map fun x => x.toNat % words)

def maskPattern (slices length : Nat) (seed : UInt64) : List UInt64 :=
  (stream (seed ^^^ 0x9E3779B97F4A7C15) length).map (· &&& Bits.lowMask slices)

def wordAddress (map : AddressMap) (word : Nat) : Except Fault UInt64 := do
  return (← Size.mul word map.wordStride.toNat).toUInt64

def writeData (i : Nat) : UInt64 :=
  i.toUInt64 * multiplier

def lastWritten (writes : List (Nat × UInt64)) (word : Nat) : UInt64 :=
  (writes.reverse.lookup word).getD 0

def writeCommand (map : AddressMap) (w : Nat × UInt64) : Except Fault Command := do
  return ⟨0, .write (← wordAddress map w.1) w.2, 0⟩

/-- Reads pause for 0, 1, 2 and 3 cycles in turn. -/
def readCommand (map : AddressMap) (writes : List (Nat × UInt64)) (r : Nat × Nat) :
    Except Fault Command := do
  return ⟨(r.2 % 4).toUInt64, .read (← wordAddress map r.1) (lastWritten writes r.1), 0⟩

def writesTo (words : List Nat) : List (Nat × UInt64) :=
  words.zipIdx.map fun (word, i) => (word, writeData i)

/-- The commands are counted before they are made.  Storage is taken to be unlimited, so as many as
can be counted are made. -/
def referenceScript (map : AddressMap) (length : Nat) (seed : UInt64) :
    Except Fault (List Command) := do
  let words ← accessPattern (← map.capacity) length seed
  let _ ← Size.mul 2 length
  let writes ← (writesTo words).mapM (writeCommand map)
  return writes ++ (← words.zipIdx.mapM (readCommand map (writesTo words)))

def referenceConfig : Config := ⟨4096, 4, 8⟩

def stressConfig : Config := ⟨65536, 16, 8⟩

end BankedStore.Workload
