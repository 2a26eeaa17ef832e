import BankedStore.Size
import BankedStore.Rejection

/-!
The shape of a banked array.  A configuration says how many entries there are, over how many banks
they are spread and into how many slices each is cut; `Config.validate` checks that these divide
evenly for a given word width and derives the geometry.  Within a bank the slices lie entry after
entry, so slice `s` of entry `i` is in slot `i * byteEnables + s`.
-/

namespace BankedStore

structure Config where
  totalEntries : Nat
  bankCount : Nat := 1
  byteEnables : Nat := 1
  deriving DecidableEq, Repr

structure Geometry where
  entriesPerBank : Nat
  bankCount : Nat
  byteEnables : Nat
  wordWidth : Nat
  deriving DecidableEq, Repr

structure Location where
  index : Nat
  bank : Nat := 0
  deriving DecidableEq, Repr

/-- Zero dimensions are refused before uneven ones. -/
def Config.validate (c : Config) (wordWidth : Nat) : Except Rejection Geometry :=
  if c.totalEntries = 0 then .error .zeroEntries
  else if c.bankCount = 0 then .error .zeroBanks
  else if c.byteEnables = 0 then .error .zeroByteEnables
  else if wordWidth = 0 then .error .zeroWidth
  else if c.totalEntries % c.bankCount ≠ 0 then .error (.unevenBanks c.totalEntries c.bankCount)
  else if wordWidth % c.byteEnables ≠ 0 then .error (.unevenSlices wordWidth c.byteEnables)
  else .ok ⟨c.totalEntries / c.bankCount, c.bankCount, c.byteEnables, wordWidth⟩

namespace Geometry

def sliceWidth (g : Geometry) : Nat :=
  g.wordWidth / g.byteEnables

def localIndexWidth (g : Geometry) : Nat :=
  Size.indexWidth g.entriesPerBank

def bankIndexWidth (g : Geometry) : Nat :=
  Size.indexWidth g.bankCount

def totalEntries (g : Geometry) : Except Fault Nat :=
  Size.mul g.entriesPerBank g.bankCount

def slotsPerBank (g : Geometry) : Except Fault Nat :=
  Size.mul g.entriesPerBank g.byteEnables

def totalBits (g : Geometry) : Except Fault Nat := do
  Size.mul (← g.totalEntries) g.wordWidth

def slot (g : Geometry) (index slice : Nat) : Except Fault Nat := do
  Size.add (← Size.mul index g.byteEnables) slice

def contains (g : Geometry) (l : Location) : Bool :=
  l.index < g.entriesPerBank && l.bank < g.bankCount

/-- The bank is checked before the index. -/
def check (g : Geometry) (l : Location) : Except Rejection Unit :=
  if g.bankCount ≤ l.bank then .error (.bankOutOfRange l.bank g.bankCount)
  else if g.entriesPerBank ≤ l.index then .error (.indexOutOfRange l.index g.entriesPerBank)
  else .ok ()

def describe (g : Geometry) : String :=
  s!"Geometry \x7b entries_per_bank: {g.entriesPerBank}, bank_count: {g.bankCount}, "
    ++ s!"byte_enables: {g.byteEnables}, word_width: {g.wordWidth}, slice_width: {g.sliceWidth}, "
    ++ s!"local_index_width: {g.localIndexWidth}, bank_index_width: {g.bankIndexWidth} \x7d"

end Geometry

end BankedStore
