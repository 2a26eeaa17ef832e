import BankedStore.Playback
import BankedStore.Proofs.Bus.Calls

/-!
# Playback sees only answers

All that a player learns of a bus is how its calls are answered.  On two buses
that answer alike a list is played to the same report or the same error, and the
buses stay alike.  On a bus that never faults playback does not fault either.
-/

namespace BankedStore

namespace Player

variable {σ τ : Type} [Bus σ] [Bus τ] {related : σ → τ → Prop} {s : σ} {u : τ}

theorem pause_alike (h : Bus.Simulation related) (hs : related s u) (cycles : UInt64)
    (report : Report) :
    (pause cycles report s).1 = (pause cycles report u).1 ∧
      related (pause cycles report s).2 (pause cycles report u).2 := by
  unfold pause
  split
  · exact ⟨rfl, hs⟩
  · exact ⟨rfl, h.idle hs cycles⟩

theorem issue_alike (h : Bus.Simulation related) (hs : related s u) (c : Command)
    (report : Report) :
    (issue c report s).1 = (issue c report u).1 ∧
      related (issue c report s).2 (issue c report u).2 := by
  unfold issue
  cases c.request with
  | write addr data =>
      obtain ⟨hanswer, hnext⟩ := h.write hs addr data
      dsimp only
      generalize Bus.write s addr data = first at hanswer hnext ⊢
      generalize Bus.write u addr data = second at hanswer hnext ⊢
      obtain ⟨answer, s⟩ := first
      obtain ⟨_, u⟩ := second
      cases hanswer
      cases answer <;> exact ⟨rfl, hnext⟩
  | read addr expected =>
      obtain ⟨hanswer, hnext⟩ := h.read hs addr
      dsimp only
      generalize Bus.read s addr = first at hanswer hnext ⊢
      generalize Bus.read u addr = second at hanswer hnext ⊢
      obtain ⟨answer, s⟩ := first
      obtain ⟨_, u⟩ := second
      cases hanswer
      cases answer with
      | error e => exact ⟨rfl, hnext⟩
      | ok actual =>
          dsimp only
          split
          · exact ⟨rfl, hnext⟩
          · exact ⟨rfl, hnext⟩

theorem playFrom_alike (h : Bus.Simulation related) (hs : related s u) (report : Report)
    (commands : List Command) :
    (playFrom report s commands).1 = (playFrom report u commands).1 ∧
      related (playFrom report s commands).2 (playFrom report u commands).2 := by
  induction commands generalizing s u report with
  | nil => exact ⟨rfl, hs⟩
  | cons c commands ih =>
      obtain ⟨hreport, hpaused⟩ := pause_alike h hs c.delay report
      obtain ⟨hissued, hnext⟩ := issue_alike h hpaused c (pause c.delay report s).1
      simp only [playFrom]
      rw [← hreport]
      generalize issue c (pause c.delay report s).1 (pause c.delay report s).2 = first
        at hissued hnext ⊢
      generalize issue c (pause c.delay report s).1 (pause c.delay report u).2 = second
        at hissued hnext ⊢
      obtain ⟨counted, s⟩ := first
      obtain ⟨_, u⟩ := second
      cases hissued
      cases counted with
      | ok report => exact ih hnext report
      | error e => exact ⟨rfl, hnext⟩

theorem play_alike (h : Bus.Simulation related) (hs : related s u) (p : Player) :
    (p.play s).1 = (p.play u).1 ∧ related (p.play s).2 (p.play u).2 := by
  obtain ⟨hreport, hpaused⟩ := pause_alike h hs p.warmup {}
  simp only [play]
  rw [← hreport]
  exact playFrom_alike h hpaused _ p.commands

/-! ## Without faults -/

theorem issue_faultless (h : Bus.Faultless σ) (c : Command) (report : Report) (s : σ) :
    ∃ outcome, (issue c report s).1 = Failure.ofRefusal outcome := by
  unfold issue
  cases c.request with
  | write addr data =>
      have hanswer := h s (.write addr data)
      change ¬ (BusAnswer.written (Bus.write s addr data).1).Faulted at hanswer
      dsimp only
      rcases hwrite : Bus.write s addr data with ⟨⟨⟨cause⟩ | ⟨reason⟩⟩ | _, next⟩
      · rw [hwrite] at hanswer
        exact absurd trivial hanswer
      · exact ⟨.error (.bus reason), rfl⟩
      · exact ⟨.ok _, rfl⟩
  | read addr expected =>
      have hanswer := h s (.read addr)
      change ¬ (BusAnswer.data (Bus.read s addr).1).Faulted at hanswer
      dsimp only
      rcases hread : Bus.read s addr with ⟨⟨⟨cause⟩ | ⟨reason⟩⟩ | actual, next⟩
      · rw [hread] at hanswer
        exact absurd trivial hanswer
      · exact ⟨.error (.bus reason), rfl⟩
      · dsimp only
        split
        · exact ⟨.ok _, rfl⟩
        · exact ⟨.error (.mismatch ..), rfl⟩

theorem playFrom_faultless (h : Bus.Faultless σ) (report : Report) (s : σ)
    (commands : List Command) :
    ∃ outcome, (playFrom report s commands).1 = Failure.ofRefusal outcome := by
  induction commands generalizing report s with
  | nil => exact ⟨.ok report, rfl⟩
  | cons c commands ih =>
      obtain ⟨outcome, hissue⟩ := issue_faultless h c (pause c.delay report s).1
        (pause c.delay report s).2
      simp only [playFrom]
      generalize issue c (pause c.delay report s).1 (pause c.delay report s).2 = issued at hissue ⊢
      obtain ⟨counted, next⟩ := issued
      cases hissue
      cases outcome with
      | ok report => exact ih report next
      | error e => exact ⟨.error e, rfl⟩

theorem play_faultless (h : Bus.Faultless σ) (p : Player) (s : σ) :
    ∃ outcome, (p.play s).1 = Failure.ofRefusal outcome :=
  playFrom_faultless h ..

end Player

end BankedStore
