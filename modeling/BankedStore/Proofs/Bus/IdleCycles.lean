import BankedStore.Bus.MemoryBus
import BankedStore.Proofs.Link.Stages
import BankedStore.Size.Lemmas

/-!
# Counting idle cycles

A bus counts idle cycles when its requests leave the count alone and its idle calls
add to it.  After a run the count is the start and all the cycles together, up to
the largest count there is.  A memory's own bus counts in this way, and so does the
client of a link, whatever the pace at which its server answers.
-/

namespace BankedStore

def BusCall.cycles : BusCall → Nat
  | idle cycles => cycles.toNat
  | _ => 0

def BusCall.idled (calls : List BusCall) : Nat :=
  (calls.map cycles).sum

theorem BusCall.idled_cons (call : BusCall) (calls : List BusCall) :
    idled (call :: calls) = call.cycles + idled calls := by
  simp [idled]

namespace Bus

variable {σ : Type} [Bus σ]

structure CountsIdle (count : σ → UInt64) : Prop where
  write : ∀ s addr data, count (Bus.write s addr data).2 = count s
  read : ∀ s addr, count (Bus.read s addr).2 = count s
  idle : ∀ s cycles, count (Bus.idle s cycles) = Size.saturatingAdd (count s) cycles

namespace CountsIdle

variable {count : σ → UInt64}

theorem perform (h : CountsIdle count) (s : σ) (call : BusCall) :
    (count (Bus.perform s call).2).toNat =
      min ((count s).toNat + call.cycles) (Size.limit - 1) := by
  have hkeep : (count s).toNat = min ((count s).toNat + 0) (Size.limit - 1) :=
    (Nat.min_eq_left (Size.toNat_le_largest _)).symm
  cases call with
  | write addr data => exact (congrArg UInt64.toNat (h.write s addr data)).trans hkeep
  | read addr => exact (congrArg UInt64.toNat (h.read s addr)).trans hkeep
  | idle cycles =>
      exact (congrArg UInt64.toNat (h.idle s cycles)).trans (Size.toNat_saturatingAdd ..)

theorem run (h : CountsIdle count) (s : σ) (calls : List BusCall) :
    (count (Bus.run s calls).2).toNat =
      min ((count s).toNat + BusCall.idled calls) (Size.limit - 1) := by
  induction calls generalizing s with
  | nil => exact (Nat.min_eq_left (Size.toNat_le_largest _)).symm
  | cons call calls ih =>
      have hfirst := h.perform s call
      change (count (Bus.run (Bus.perform s call).2 calls).2).toNat = _
      rw [ih, hfirst, BusCall.idled_cons]
      omega

end CountsIdle

end Bus

theorem MemoryBus.countsIdle {t : ElementType} :
    Bus.CountsIdle (idleCycles (t := t)) where
  write b addr data := by
    change (b.write addr data).2.idleCycles = b.idleCycles
    unfold write
    split <;> rfl
  read _ _ := rfl
  idle _ _ := rfl

/-! ## Over a link -/

variable {σ : Type}

namespace Link

variable [Bus σ]

theorem step_idleCycles {l next : Link σ} {action : Action} (h : l.step action = some next) :
    next.idleCycles = l.idleCycles := by
  cases action with
  | send =>
      change l.send = some next at h
      unfold Link.send at h
      split at h
      · split at h
        · cases h
          rfl
        · split at h <;> cases h
          rfl
      · cases h
  | await =>
      change l.await = some next at h
      unfold Link.await at h
      split at h
      · split at h
        · cases h
          rfl
        · split at h <;> cases h
          rfl
      · cases h
  | receive | serve | reply | dropMessages | dropReplies =>
      refine (server_step_keeps ?_ h).2
      trivial

theorem idleCycles_foldl (actions : List Action) (l : Link σ) :
    (actions.foldl (fun l action => (l.step action).getD l) l).idleCycles = l.idleCycles := by
  induction actions generalizing l with
  | nil => rfl
  | cons action actions ih =>
      rw [List.foldl_cons, ih]
      cases h : l.step action with
      | none => rfl
      | some next => exact step_idleCycles h

theorem idleCycles_call (l : Link σ) (message : Message) :
    (l.call message).2.idleCycles = l.idleCycles := by
  have hround : ({ l with client := .sending message } : Link σ).round.idleCycles =
      l.idleCycles := idleCycles_foldl schedule _
  unfold call
  dsimp only
  split <;> exact hround

theorem countsIdle : Bus.CountsIdle (idleCycles (σ := σ)) where
  write l addr data := idleCycles_call l (.write addr data)
  read l addr := idleCycles_call l (.read addr)
  idle _ _ := rfl

end Link

namespace Session

/-- The cycles counted so far and those of the calls that are left, as far as they can be
counted. -/
def cyclesInAll (s : Session σ) : Nat :=
  min (s.link.idleCycles.toNat + BusCall.idled s.todo) (Size.limit - 1)

theorem call_cyclesInAll {s next : Session σ} (h : s.call = some next) :
    next.cyclesInAll = s.cyclesInAll := by
  unfold call at h
  split at h
  · rename_i htodo
    cases h
    simp [cyclesInAll, htodo, BusCall.idled_cons, BusCall.cycles]
  · rename_i htodo
    cases h
    simp [cyclesInAll, htodo, BusCall.idled_cons, BusCall.cycles]
  · rename_i htodo
    cases h
    simp only [cyclesInAll, htodo, BusCall.idled_cons, BusCall.cycles, Size.toNat_saturatingAdd]
    omega
  · cases h

variable [Bus σ]

theorem step_cyclesInAll {s next : Session σ} {action : Action}
    (h : s.step action = some next) : next.cyclesInAll = s.cyclesInAll := by
  cases action with
  | call => exact call_cyclesInAll h
  | finish =>
      change s.finish = some next at h
      unfold finish at h
      split at h <;> cases h
      rfl
  | dropSender =>
      change s.dropSender = some next at h
      unfold dropSender at h
      split at h <;> cases h
      rfl
  | dropReceiver =>
      change s.dropReceiver = some next at h
      unfold dropReceiver at h
      split at h
      · split at h <;> cases h
        rfl
      · cases h
  | link action =>
      obtain ⟨after, hstep, rfl⟩ := Option.map_eq_some_iff.mp h
      simp only [cyclesInAll, Link.step_idleCycles hstep]

theorem run_cyclesInAll {s next : Session σ} {schedule : List Action}
    (h : s.run schedule = some next) : next.cyclesInAll = s.cyclesInAll := by
  induction schedule generalizing s with
  | nil =>
      cases h
      rfl
  | cons action schedule ih =>
      obtain ⟨middle, hstep, hrest⟩ := Option.bind_eq_some_iff.mp h
      exact (ih hrest).trans (step_cyclesInAll hstep)

end Session

end BankedStore
