import BankedStore.Playback
import BankedStore.Size.Lemmas

/-!
# What a playback counts

On any bus a list that is played to its end has all its writes and reads counted,
and the warm-up cycles and all delays together as idle cycles, up to the largest
count there is.
-/

namespace BankedStore

def delays (commands : List Command) : Nat :=
  (commands.map fun c => c.delay.toNat).sum

def Report.total (warmup : UInt64) (commands : List Command) : Report where
  writes := commands.countP fun c => c.request.isWrite
  reads := commands.countP fun c => !c.request.isWrite
  idleCycles := (min (warmup.toNat + delays commands) (Size.limit - 1)).toUInt64

structure Report.Grows (before : Report) (commands : List Command) (after : Report) : Prop where
  writes : after.writes = before.writes + commands.countP fun c => c.request.isWrite
  reads : after.reads = before.reads + commands.countP fun c => !c.request.isWrite
  idleCycles : after.idleCycles.toNat =
    min (before.idleCycles.toNat + delays commands) (Size.limit - 1)

namespace Player

variable {σ : Type} [Bus σ]

theorem pause_report (cycles : UInt64) (report : Report) (bus : σ) :
    (pause cycles report bus).1.writes = report.writes ∧
      (pause cycles report bus).1.reads = report.reads ∧
      (pause cycles report bus).1.idleCycles.toNat =
        min (report.idleCycles.toNat + cycles.toNat) (Size.limit - 1) := by
  unfold pause
  split
  · rename_i hzero
    subst hzero
    exact ⟨rfl, rfl, (Nat.min_eq_left (Size.toNat_le_largest _)).symm⟩
  · exact ⟨rfl, rfl, Size.toNat_saturatingAdd ..⟩

theorem issue_report {c : Command} {report counted : Report} {bus : σ}
    (h : (issue c report bus).1 = .ok counted) :
    counted.writes = report.writes + (if c.request.isWrite then 1 else 0) ∧
      counted.reads = report.reads + (if !c.request.isWrite then 1 else 0) ∧
      counted.idleCycles = report.idleCycles := by
  unfold issue at h
  cases hrequest : c.request with
  | write addr data =>
      rw [hrequest] at h
      dsimp only at h
      split at h
      · cases h
        exact ⟨rfl, rfl, rfl⟩
      · cases h
  | read addr expected =>
      rw [hrequest] at h
      dsimp only at h
      split at h
      · split at h
        · cases h
          exact ⟨rfl, rfl, rfl⟩
        · cases h
      · cases h

theorem playFrom_grows {report done : Report} {bus : σ} {commands : List Command}
    (h : (playFrom report bus commands).1 = .ok done) : report.Grows commands done := by
  induction commands generalizing report bus with
  | nil =>
      cases h
      exact ⟨rfl, rfl, (Nat.min_eq_left (Size.toNat_le_largest _)).symm⟩
  | cons c commands ih =>
      obtain ⟨hpausedWrites, hpausedReads, hpausedIdle⟩ := pause_report c.delay report bus
      rw [playFrom] at h
      generalize pause c.delay report bus = paused at h hpausedWrites hpausedReads hpausedIdle
      obtain ⟨waited, bus⟩ := paused
      dsimp only at h hpausedWrites hpausedReads hpausedIdle
      cases hissue : issue c waited bus with
      | mk outcome next =>
          rw [hissue] at h
          cases outcome with
          | error e => cases h
          | ok counted =>
              obtain ⟨hwrites, hreads, hidle⟩ := issue_report (congrArg Prod.fst hissue)
              have hrest := ih h
              refine ⟨?_, ?_, ?_⟩
              · rw [hrest.writes, hwrites, hpausedWrites, List.countP_cons]
                omega
              · rw [hrest.reads, hreads, hpausedReads, List.countP_cons]
                omega
              · have hdelays : delays (c :: commands) = c.delay.toNat + delays commands := rfl
                rw [hrest.idleCycles, hidle, hpausedIdle, hdelays]
                omega

/-- A playback that ends well reports the totals of its commands, whatever the bus. -/
theorem report_of_play {p : Player} {report : Report} {bus : σ}
    (h : (p.play bus).1 = .ok report) : report = .total p.warmup p.commands := by
  obtain ⟨hpausedWrites, hpausedReads, hpausedIdle⟩ :=
    pause_report p.warmup ({} : Report) bus
  have hgrows : (pause p.warmup {} bus).1.Grows p.commands report := playFrom_grows h
  have hidle : report.idleCycles = (Report.total p.warmup p.commands).idleCycles := by
    refine UInt64.toNat_inj.mp ?_
    have htotal : (Report.total p.warmup p.commands).idleCycles.toNat =
        min (p.warmup.toNat + delays p.commands) (Size.limit - 1) :=
      Nat.mod_eq_of_lt (Nat.lt_of_le_of_lt (Nat.min_le_right ..) (by decide))
    rw [hgrows.idleCycles, hpausedIdle, htotal]
    change min (min (0 + p.warmup.toNat) (Size.limit - 1) + delays p.commands) _ = _
    omega
  obtain ⟨writes, reads, idleCycles⟩ := report
  have hwrites := hgrows.writes
  have hreads := hgrows.reads
  rw [hpausedWrites] at hwrites
  rw [hpausedReads] at hreads
  dsimp only at hidle hwrites hreads
  rw [hidle, hwrites, hreads, Nat.zero_add, Nat.zero_add]
  rfl

end Player

end BankedStore
