import BankedStore.Size
import BankedStore.Text.Numeral

/-!
A bus as its user sees it.  Addresses are byte addresses and data is a 64-bit word; each write and
each read is one transaction, complete when the call returns.  Idle cycles pass without one.
-/

namespace BankedStore

inductive BusError where
  | addressOutOfRange (addr : UInt64) (capacity : Nat)
  | disconnected
  | protocol (detail : String)
  | serverCrashed
  deriving DecidableEq, Repr

def BusError.message : BusError → String
  | addressOutOfRange addr capacity =>
      s!"address {Numeral.prefixedHex addr.toNat} is past the end of a {capacity}-word memory"
  | disconnected => "bus channel disconnected"
  | protocol detail => s!"bus protocol violation: {detail}"
  | serverCrashed => "memory slave thread panicked"

/-- States `σ` of something that answers bus calls.  A call gives its answer and the next state. -/
class Bus (σ : Type) where
  write : σ → UInt64 → UInt64 → Except (Failure BusError) Unit × σ
  read : σ → UInt64 → Except (Failure BusError) UInt64 × σ
  idle : σ → UInt64 → σ

end BankedStore
