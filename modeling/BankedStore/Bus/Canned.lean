import BankedStore.Bus.Basic

/-!
A bus without a memory.  It accepts every write, answers reads from a list of prepared words, and is
disconnected once a read finds the list used up.
-/

namespace BankedStore

structure CannedBus where
  answers : List UInt64
  idleCycles : UInt64 := 0
  deriving DecidableEq, Repr

instance : Bus CannedBus where
  write b _ _ := (.ok (), b)
  read b _ :=
    match b.answers with
    | value :: rest => (.ok value, { b with answers := rest })
    | [] => (.error (.refused .disconnected), b)
  idle b cycles := { b with idleCycles := Size.saturatingAdd b.idleCycles cycles }

end BankedStore
