import BankedStore.Bus.Basic

/-!
# Calls on a bus

A run makes one call after the other and collects the answers.  Two buses whose
states can be related so that related states answer alike, and stay related,
cannot be told apart by any run.
-/

namespace BankedStore

inductive BusCall where
  | write (addr data : UInt64)
  | read (addr : UInt64)
  | idle (cycles : UInt64)
  deriving DecidableEq, Repr

inductive BusAnswer where
  | written (answer : Except (Failure BusError) Unit)
  | data (answer : Except (Failure BusError) UInt64)
  | idled

namespace BusAnswer

def Faulted : BusAnswer → Prop
  | written (.error (.fault _)) | data (.error (.fault _)) => True
  | _ => False

/-- The call was carried out, unless its address was out of range. -/
def Served : BusAnswer → Prop
  | written (.ok _) | data (.ok _) | idled => True
  | written (.error (.refused (.addressOutOfRange _ _)))
  | data (.error (.refused (.addressOutOfRange _ _))) => True
  | _ => False

theorem Served.not_faulted {answer : BusAnswer} (h : answer.Served) : ¬ answer.Faulted := by
  rcases answer with ⟨⟨_ | _⟩ | _⟩ | ⟨⟨_ | _⟩ | _⟩ | _
  all_goals first | exact h.elim | exact id

end BusAnswer

namespace Bus

variable {σ τ : Type} [Bus σ] [Bus τ]

def perform (s : σ) : BusCall → BusAnswer × σ
  | .write addr data => (.written (Bus.write s addr data).1, (Bus.write s addr data).2)
  | .read addr => (.data (Bus.read s addr).1, (Bus.read s addr).2)
  | .idle cycles => (.idled, Bus.idle s cycles)

def run (s : σ) : List BusCall → List BusAnswer × σ
  | [] => ([], s)
  | call :: calls =>
      let next := perform s call
      let rest := run next.2 calls
      (next.1 :: rest.1, rest.2)

theorem run_append (s : σ) (before after : List BusCall) :
    run s (before ++ after) =
      ((run s before).1 ++ (run (run s before).2 after).1, (run (run s before).2 after).2) := by
  induction before generalizing s with
  | nil => rfl
  | cons call before ih => simp [run, ih]

theorem length_run (s : σ) (calls : List BusCall) : (run s calls).1.length = calls.length := by
  induction calls generalizing s with
  | nil => rfl
  | cons call calls ih => simp [run, ih]

/-- No call breaks a contract, whatever the state it is made in. -/
def Faultless (σ : Type) [Bus σ] : Prop :=
  ∀ (s : σ) (call : BusCall), ¬ (perform s call).1.Faulted

def Simulation (related : σ → τ → Prop) : Prop :=
  ∀ s u, related s u → ∀ call,
    (perform s call).1 = (perform u call).1 ∧ related (perform s call).2 (perform u call).2

namespace Simulation

variable {related : σ → τ → Prop} {s : σ} {u : τ}

theorem write (h : Simulation related) (hs : related s u) (addr data : UInt64) :
    (Bus.write s addr data).1 = (Bus.write u addr data).1 ∧
      related (Bus.write s addr data).2 (Bus.write u addr data).2 := by
  obtain ⟨hanswer, hnext⟩ := h s u hs (.write addr data)
  exact ⟨BusAnswer.written.inj hanswer, hnext⟩

theorem read (h : Simulation related) (hs : related s u) (addr : UInt64) :
    (Bus.read s addr).1 = (Bus.read u addr).1 ∧
      related (Bus.read s addr).2 (Bus.read u addr).2 := by
  obtain ⟨hanswer, hnext⟩ := h s u hs (.read addr)
  exact ⟨BusAnswer.data.inj hanswer, hnext⟩

theorem idle (h : Simulation related) (hs : related s u) (cycles : UInt64) :
    related (Bus.idle s cycles) (Bus.idle u cycles) :=
  (h s u hs (.idle cycles)).2

end Simulation

theorem Simulation.run {related : σ → τ → Prop} (h : Simulation related) {s : σ} {u : τ}
    (hs : related s u) (calls : List BusCall) :
    (Bus.run s calls).1 = (Bus.run u calls).1 ∧
      related (Bus.run s calls).2 (Bus.run u calls).2 := by
  induction calls generalizing s u with
  | nil => exact ⟨rfl, hs⟩
  | cons call calls ih =>
      obtain ⟨hanswer, hnext⟩ := h s u hs call
      obtain ⟨hanswers, hlast⟩ := ih hnext
      refine ⟨?_, hlast⟩
      change (perform s call).1 :: _ = (perform u call).1 :: _
      rw [hanswer]
      exact congrArg _ hanswers

end Bus

end BankedStore
