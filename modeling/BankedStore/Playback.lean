import BankedStore.Bus.Basic
import BankedStore.Script.Command

/-!
Playing a list of commands on a bus.  After some warm-up cycles each command lets its delay pass and
makes its request; a read must find the data that the command expects.  Playback ends at the first
request that fails.
-/

namespace BankedStore

inductive PlayError where
  | bus (cause : BusError)
  | mismatch (line : Nat) (addr expected actual : UInt64)
  deriving DecidableEq, Repr

def PlayError.message : PlayError → String
  | bus cause => cause.message
  | mismatch line addr expected actual =>
      s!"read response did not match on line {line}: addr={Numeral.prefixedHex addr.toNat}, "
        ++ s!"expected={Numeral.prefixedHex expected.toNat}, "
        ++ s!"actual={Numeral.prefixedHex actual.toNat}"

structure Report where
  writes : Nat := 0
  reads : Nat := 0
  idleCycles : UInt64 := 0
  deriving DecidableEq, Repr

namespace Report

def requests (r : Report) : Except Fault Nat :=
  Size.add r.writes r.reads

def text (r : Report) : String :=
  s!"{r.writes} writes, {r.reads} reads, {r.idleCycles} idle cycles"

end Report

structure Player where
  commands : List Command
  warmup : UInt64 := 20
  deriving DecidableEq, Repr

namespace Player

variable {σ : Type} [Bus σ]

/-- Lets cycles pass on the bus and counts them; none make no call. -/
def pause (cycles : UInt64) (report : Report) (bus : σ) : Report × σ :=
  if cycles = 0 then (report, bus)
  else
    ({ report with idleCycles := Size.saturatingAdd report.idleCycles cycles }, Bus.idle bus cycles)

def issue (c : Command) (report : Report) (bus : σ) :
    Except (Failure PlayError) Report × σ :=
  match c.request with
  | .write addr data =>
      match Bus.write bus addr data with
      | (.ok (), bus) => (.ok { report with writes := report.writes + 1 }, bus)
      | (.error e, bus) => (.error (e.map .bus), bus)
  | .read addr expected =>
      match Bus.read bus addr with
      | (.ok actual, bus) =>
          if actual = expected then (.ok { report with reads := report.reads + 1 }, bus)
          else (.error (.refused (.mismatch c.line addr expected actual)), bus)
      | (.error e, bus) => (.error (e.map .bus), bus)

def playFrom (report : Report) (bus : σ) : List Command → Except (Failure PlayError) Report × σ
  | [] => (.ok report, bus)
  | c :: commands =>
      let (report, bus) := pause c.delay report bus
      match issue c report bus with
      | (.ok report, bus) => playFrom report bus commands
      | (.error e, bus) => (.error e, bus)

def play (p : Player) (bus : σ) : Except (Failure PlayError) Report × σ :=
  let (report, bus) := pause p.warmup {} bus
  playFrom report bus p.commands

end Player

end BankedStore
