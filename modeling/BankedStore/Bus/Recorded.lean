import BankedStore.Bus.Basic

/-!
A bus that keeps a list of the calls made on it, with the data that each successful read gave.
-/

namespace BankedStore

inductive BusEvent where
  | idle (cycles : UInt64)
  | write (addr data : UInt64)
  | read (addr : UInt64)
  | data (value : UInt64)
  deriving DecidableEq, Repr

def BusEvent.text : BusEvent → String
  | idle cycles => s!"I {cycles}"
  | write addr value => s!"W {Numeral.hex addr.toNat} {Numeral.hex value.toNat}"
  | read addr => s!"R {Numeral.hex addr.toNat}"
  | data value => s!"= {Numeral.hex value.toNat}"

/-- A bus and the events on it, the latest last. -/
structure Recorded (σ : Type) where
  bus : σ
  events : List BusEvent := []

instance {σ : Type} [Bus σ] : Bus (Recorded σ) where
  write r addr data :=
    let (answer, bus) := Bus.write r.bus addr data
    (answer, ⟨bus, r.events ++ [.write addr data]⟩)
  read r addr :=
    let (answer, bus) := Bus.read r.bus addr
    let seen := match answer with
      | .ok value => [.read addr, .data value]
      | .error _ => [.read addr]
    (answer, ⟨bus, r.events ++ seen⟩)
  idle r cycles := ⟨Bus.idle r.bus cycles, r.events ++ [.idle cycles]⟩

end BankedStore
