import BankedStore.Bus.Recorded
import BankedStore.Proofs.Bus.IdleCycles
import BankedStore.Proofs.Playback.Alike
import BankedStore.Proofs.Playback.Totals

/-!
# The calls of a playback

Whatever the bus, a player makes the calls of its commands one after the other.  It
stops at the first request that the bus refuses or answers with unexpected data, and
makes no call after that one.  A bus that records its calls shows them; recording
changes nothing else.
-/

namespace BankedStore

def BusEvent.call? : BusEvent → Option BusCall
  | idle cycles => some (.idle cycles)
  | write addr value => some (.write addr value)
  | read addr => some (.read addr)
  | data _ => none

def Recorded.calls {σ : Type} (r : Recorded σ) : List BusCall :=
  r.events.filterMap BusEvent.call?

def Request.call : Request → BusCall
  | write addr data => .write addr data
  | read addr _ => .read addr

/-- To let no cycles pass takes no call. -/
def BusCall.wait (cycles : UInt64) : List BusCall :=
  if cycles = 0 then [] else [.idle cycles]

def Command.calls (c : Command) : List BusCall :=
  BusCall.wait c.delay ++ [c.request.call]

variable {σ : Type} [Bus σ]

/-! ## Recording -/

namespace Recorded

theorem perform_eq (r : Recorded σ) (call : BusCall) :
    (Bus.perform r call).1 = (Bus.perform r.bus call).1 ∧
      (Bus.perform r call).2.bus = (Bus.perform r.bus call).2 ∧
      (Bus.perform r call).2.calls = r.calls ++ [call] := by
  cases call with
  | write addr data => exact ⟨rfl, rfl, by simp [Bus.perform, Bus.write, calls, BusEvent.call?]⟩
  | read addr =>
      refine ⟨rfl, rfl, ?_⟩
      cases hanswer : (Bus.read r.bus addr).1 <;>
        simp [Bus.perform, Bus.read, calls, BusEvent.call?, hanswer]
  | idle cycles => exact ⟨rfl, rfl, by simp [Bus.perform, Bus.idle, calls, BusEvent.call?]⟩

theorem simulation : Bus.Simulation fun (r : Recorded σ) (s : σ) => r.bus = s := by
  rintro r _ rfl call
  obtain ⟨hanswer, hbus, -⟩ := r.perform_eq call
  exact ⟨hanswer, hbus⟩

theorem calls_run (r : Recorded σ) (calls : List BusCall) :
    (Bus.run r calls).2.calls = r.calls ++ calls := by
  induction calls generalizing r with
  | nil => simp [Bus.run]
  | cons call calls ih =>
      obtain ⟨-, -, hcalls⟩ := r.perform_eq call
      change (Bus.run (Bus.perform r call).2 calls).2.calls = _
      rw [ih, hcalls, List.append_assoc, List.singleton_append]

end Recorded

theorem Recorded.bus_run (r : Recorded σ) (calls : List BusCall) :
    (Bus.run r calls).2.bus = (Bus.run r.bus calls).2 :=
  (simulation.run rfl calls).2

/-! ## One command -/

namespace Command

inductive PassesOn (s : σ) (c : Command) : Prop
  | write {addr data : UInt64} (hrequest : c.request = .write addr data)
      (hanswer : (Bus.write s addr data).1 = .ok ())
  | read {addr expected : UInt64} (hrequest : c.request = .read addr expected)
      (hanswer : (Bus.read s addr).1 = .ok expected)

inductive FailsOn (s : σ) (c : Command) : Failure PlayError → Prop
  | write {addr data : UInt64} {e : Failure BusError} (hrequest : c.request = .write addr data)
      (hanswer : (Bus.write s addr data).1 = .error e) : FailsOn s c (e.map .bus)
  | read {addr expected : UInt64} {e : Failure BusError}
      (hrequest : c.request = .read addr expected)
      (hanswer : (Bus.read s addr).1 = .error e) : FailsOn s c (e.map .bus)
  | mismatch {addr expected actual : UInt64} (hrequest : c.request = .read addr expected)
      (hanswer : (Bus.read s addr).1 = .ok actual) (hne : actual ≠ expected) :
      FailsOn s c (.refused (.mismatch c.line addr expected actual))

theorem passesOn_or_failsOn (s : σ) (c : Command) :
    c.PassesOn s ∨ ∃ e, c.FailsOn s e := by
  cases hrequest : c.request with
  | write addr data =>
      cases hanswer : (Bus.write s addr data).1 with
      | ok => exact .inl (.write hrequest hanswer)
      | error e => exact .inr ⟨_, .write hrequest hanswer⟩
  | read addr expected =>
      cases hanswer : (Bus.read s addr).1 with
      | error e => exact .inr ⟨_, .read hrequest hanswer⟩
      | ok actual =>
          by_cases hfound : actual = expected
          · exact .inl (.read hrequest (hfound ▸ hanswer))
          · exact .inr ⟨_, .mismatch hrequest hanswer hfound⟩

theorem PassesOn.recorded {r : Recorded σ} {c : Command} (h : c.PassesOn r.bus) :
    c.PassesOn r := by
  cases h with
  | write hrequest hanswer => exact .write hrequest hanswer
  | read hrequest hanswer => exact .read hrequest hanswer

theorem FailsOn.recorded {r : Recorded σ} {c : Command} {e : Failure PlayError}
    (h : c.FailsOn r.bus e) : c.FailsOn r e := by
  cases h with
  | write hrequest hanswer => exact .write hrequest hanswer
  | read hrequest hanswer => exact .read hrequest hanswer
  | mismatch hrequest hanswer hne => exact .mismatch hrequest hanswer hne

end Command

namespace Player

theorem pause_snd (cycles : UInt64) (report : Report) (s : σ) :
    (pause cycles report s).2 = (Bus.run s (BusCall.wait cycles)).2 := by
  unfold pause BusCall.wait
  split <;> rfl

theorem issue_of_passesOn {c : Command} {s : σ} (h : c.PassesOn s) (report : Report) :
    ∃ counted, issue c report s = (.ok counted, (Bus.perform s c.request.call).2) := by
  unfold issue
  cases h with
  | write hrequest hanswer =>
      rw [hrequest]
      dsimp only [Request.call, Bus.perform]
      generalize Bus.write s _ _ = outcome at hanswer ⊢
      obtain ⟨_, next⟩ := outcome
      cases hanswer
      exact ⟨_, rfl⟩
  | read hrequest hanswer =>
      rw [hrequest]
      dsimp only [Request.call, Bus.perform]
      generalize Bus.read s _ = outcome at hanswer ⊢
      obtain ⟨_, next⟩ := outcome
      cases hanswer
      exact ⟨_, if_pos rfl⟩

theorem issue_of_failsOn {c : Command} {s : σ} {e : Failure PlayError} (h : c.FailsOn s e)
    (report : Report) : issue c report s = (.error e, (Bus.perform s c.request.call).2) := by
  unfold issue
  cases h with
  | write hrequest hanswer =>
      rw [hrequest]
      dsimp only [Request.call, Bus.perform]
      generalize Bus.write s _ _ = outcome at hanswer ⊢
      obtain ⟨_, next⟩ := outcome
      cases hanswer
      rfl
  | read hrequest hanswer =>
      rw [hrequest]
      dsimp only [Request.call, Bus.perform]
      generalize Bus.read s _ = outcome at hanswer ⊢
      obtain ⟨_, next⟩ := outcome
      cases hanswer
      rfl
  | mismatch hrequest hanswer hne =>
      rw [hrequest]
      dsimp only [Request.call, Bus.perform]
      generalize Bus.read s _ = outcome at hanswer ⊢
      obtain ⟨_, next⟩ := outcome
      cases hanswer
      exact if_neg hne

/-! ## A list of commands -/

/-- The state in which the request of a command is made after some other commands. -/
def reached (s : σ) (earlier : List Command) (c : Command) : σ :=
  (Bus.run s (earlier.flatMap Command.calls ++ BusCall.wait c.delay)).2

theorem pause_snd_eq_reached (s : σ) (c : Command) (report : Report) :
    (pause c.delay report s).2 = reached s [] c :=
  pause_snd c.delay report s

def AllPassOn (s : σ) (commands : List Command) : Prop :=
  ∀ earlier c later, commands = earlier ++ c :: later → c.PassesOn (reached s earlier c)

theorem run_calls (s : σ) (c : Command) :
    (Bus.run s c.calls).2 = (Bus.perform (reached s [] c) c.request.call).2 := by
  rw [Command.calls, Bus.run_append]
  rfl

theorem reached_cons (s : σ) (first : Command) (earlier : List Command) (c : Command) :
    reached s (first :: earlier) c = reached (Bus.run s first.calls).2 earlier c := by
  rw [reached, reached, List.flatMap_cons, List.append_assoc, Bus.run_append]

theorem allPassOn_nil (s : σ) : AllPassOn s [] := by
  intro earlier c later h
  simp at h

theorem allPassOn_cons {s : σ} {c : Command} {commands : List Command} :
    AllPassOn s (c :: commands) ↔
      c.PassesOn (reached s [] c) ∧ AllPassOn (Bus.run s c.calls).2 commands := by
  constructor
  · intro h
    refine ⟨h [] c commands rfl, ?_⟩
    rintro earlier c' later rfl
    rw [← reached_cons]
    exact h (c :: earlier) c' later rfl
  · rintro ⟨hfirst, hrest⟩ earlier c' later hsplit
    cases earlier with
    | nil =>
        cases hsplit
        exact hfirst
    | cons first earlier =>
        cases hsplit
        rw [reached_cons]
        exact hrest earlier c' later rfl

theorem allPassOn_or_failsOn (s : σ) (commands : List Command) :
    AllPassOn s commands ∨ ∃ earlier c later e, commands = earlier ++ c :: later ∧
      AllPassOn s earlier ∧ c.FailsOn (reached s earlier c) e := by
  induction commands generalizing s with
  | nil => exact .inl (allPassOn_nil s)
  | cons c commands ih =>
      rcases c.passesOn_or_failsOn (reached s [] c) with hpass | ⟨e, hfail⟩
      · rcases ih (Bus.run s c.calls).2 with hall | ⟨earlier, c', later, e, rfl, hall, hfail⟩
        · exact .inl (allPassOn_cons.mpr ⟨hpass, hall⟩)
        · refine .inr ⟨c :: earlier, c', later, e, rfl, allPassOn_cons.mpr ⟨hpass, hall⟩, ?_⟩
          rw [reached_cons]
          exact hfail
      · exact .inr ⟨[], c, commands, e, rfl, allPassOn_nil s, hfail⟩

theorem playFrom_append {earlier : List Command} {s : σ} (h : AllPassOn s earlier)
    (report : Report) (commands : List Command) :
    ∃ counted, playFrom report s (earlier ++ commands) =
      playFrom counted (Bus.run s (earlier.flatMap Command.calls)).2 commands := by
  induction earlier generalizing s report with
  | nil => exact ⟨report, rfl⟩
  | cons c earlier ih =>
      obtain ⟨hfirst, hrest⟩ := allPassOn_cons.mp h
      obtain ⟨issued, hissue⟩ := issue_of_passesOn hfirst (pause c.delay report s).1
      obtain ⟨counted, hplay⟩ := ih hrest issued
      refine ⟨counted, ?_⟩
      rw [List.flatMap_cons, Bus.run_append, ← hplay, run_calls, List.cons_append, playFrom]
      dsimp only
      rw [pause_snd_eq_reached, hissue]

theorem playFrom_of_failsOn {s : σ} {c : Command} {e : Failure PlayError}
    (h : c.FailsOn (reached s [] c) e) (report : Report) (later : List Command) :
    playFrom report s (c :: later) = (.error e, (Bus.run s c.calls).2) := by
  have hissue := issue_of_failsOn h (pause c.delay report s).1
  rw [run_calls, playFrom]
  dsimp only
  rw [pause_snd_eq_reached, hissue]

/-! ## A whole playback -/

def warmed (p : Player) (s : σ) : σ :=
  (Bus.run s (BusCall.wait p.warmup)).2

def callsFor (p : Player) (commands : List Command) : List BusCall :=
  BusCall.wait p.warmup ++ commands.flatMap Command.calls

def callsOn (p : Player) (s : σ) : List BusCall :=
  (p.play (⟨s, []⟩ : Recorded σ)).2.calls

theorem run_callsFor (p : Player) (s : σ) (commands : List Command) :
    (Bus.run s (p.callsFor commands)).2 =
      (Bus.run (p.warmed s) (commands.flatMap Command.calls)).2 := by
  rw [callsFor, Bus.run_append]
  rfl

theorem play_eq (p : Player) (s : σ) :
    p.play s = playFrom (pause p.warmup {} s).1 (p.warmed s) p.commands := by
  rw [play]
  dsimp only
  rw [pause_snd]
  rfl

theorem play_of_allPassOn {p : Player} {s : σ} (h : AllPassOn (p.warmed s) p.commands) :
    p.play s =
      (.ok (.total p.warmup p.commands), (Bus.run s (p.callsFor p.commands)).2) := by
  obtain ⟨counted, hplay⟩ := playFrom_append h (pause p.warmup {} s).1 []
  rw [List.append_nil, ← play_eq, ← run_callsFor] at hplay
  have hreport := report_of_play (congrArg Prod.fst hplay)
  rw [hplay, ← hreport]
  rfl

theorem play_of_failsOn {p : Player} {s : σ} {earlier later : List Command} {c : Command}
    {e : Failure PlayError} (hsplit : p.commands = earlier ++ c :: later)
    (hpass : AllPassOn (p.warmed s) earlier)
    (hfail : c.FailsOn (reached (p.warmed s) earlier c) e) :
    p.play s = (.error e, (Bus.run s (p.callsFor (earlier ++ [c]))).2) := by
  obtain ⟨counted, hplay⟩ := playFrom_append hpass (pause p.warmup {} s).1 (c :: later)
  have hfail : c.FailsOn
      (reached (Bus.run (p.warmed s) (earlier.flatMap Command.calls)).2 [] c) e := by
    rw [reached, Bus.run_append] at hfail
    exact hfail
  rw [← hsplit, ← play_eq] at hplay
  rw [hplay, playFrom_of_failsOn hfail, run_callsFor, List.flatMap_append, Bus.run_append,
    List.flatMap_singleton]

theorem bus_reached (r : Recorded σ) (earlier : List Command) (c : Command) :
    (reached r earlier c).bus = reached r.bus earlier c :=
  r.bus_run _

theorem AllPassOn.recorded {r : Recorded σ} {commands : List Command}
    (h : AllPassOn r.bus commands) : AllPassOn r commands := by
  intro earlier c later hsplit
  apply Command.PassesOn.recorded
  rw [bus_reached]
  exact h earlier c later hsplit

theorem callsOn_of_allPassOn {p : Player} {s : σ} (h : AllPassOn (p.warmed s) p.commands) :
    p.callsOn s = p.callsFor p.commands := by
  have hwarm : (p.warmed (⟨s, []⟩ : Recorded σ)).bus = p.warmed s := Recorded.bus_run _ _
  rw [← hwarm] at h
  rw [callsOn, play_of_allPassOn h.recorded, Recorded.calls_run]
  rfl

theorem callsOn_of_failsOn {p : Player} {s : σ} {earlier later : List Command} {c : Command}
    {e : Failure PlayError} (hsplit : p.commands = earlier ++ c :: later)
    (hpass : AllPassOn (p.warmed s) earlier)
    (hfail : c.FailsOn (reached (p.warmed s) earlier c) e) :
    p.callsOn s = p.callsFor (earlier ++ [c]) := by
  have hwarm : (p.warmed (⟨s, []⟩ : Recorded σ)).bus = p.warmed s := Recorded.bus_run _ _
  rw [← hwarm] at hpass hfail
  rw [← bus_reached] at hfail
  rw [callsOn, play_of_failsOn hsplit hpass.recorded hfail.recorded, Recorded.calls_run]
  rfl

/-- Either every command passes, and all calls are made and counted, or one is the first to fail;
then its request is the last call and playback ends with its error. -/
inductive Traced (p : Player) (s : σ) : Prop
  | through (hpass : AllPassOn (p.warmed s) p.commands)
      (hcalls : p.callsOn s = p.callsFor p.commands)
      (hend : p.play s = (.ok (.total p.warmup p.commands), (Bus.run s (p.callsOn s)).2))
  | stopped {earlier later : List Command} {c : Command} {e : Failure PlayError}
      (hsplit : p.commands = earlier ++ c :: later)
      (hpass : AllPassOn (p.warmed s) earlier)
      (hfail : c.FailsOn (reached (p.warmed s) earlier c) e)
      (hcalls : p.callsOn s = p.callsFor (earlier ++ [c]))
      (hend : p.play s = (.error e, (Bus.run s (p.callsOn s)).2))

theorem traced (p : Player) (s : σ) : p.Traced s := by
  rcases allPassOn_or_failsOn (p.warmed s) p.commands with
    hpass | ⟨earlier, c, later, e, hsplit, hpass, hfail⟩
  · have hcalls := callsOn_of_allPassOn hpass
    exact .through hpass hcalls (hcalls ▸ play_of_allPassOn hpass)
  · have hcalls := callsOn_of_failsOn hsplit hpass hfail
    exact .stopped hsplit hpass hfail hcalls (hcalls ▸ play_of_failsOn hsplit hpass hfail)

theorem play_snd (p : Player) (s : σ) : (p.play s).2 = (Bus.run s (p.callsOn s)).2 := by
  cases p.traced s with
  | through _ _ hend | stopped _ _ _ _ hend => rw [hend]

theorem count_play {count : σ → UInt64} (h : Bus.CountsIdle count) (p : Player) (s : σ) :
    (count (p.play s).2).toNat =
      min ((count s).toNat + BusCall.idled (p.callsOn s)) (Size.limit - 1) := by
  rw [play_snd, h.run]

/-- What a player does on any bus, and what a memory's own bus and the client of a link count of
it; the count of the client does not hang on the pace of the server. -/
theorem play_traced (p : Player) :
    (∀ (σ : Type) [Bus σ] (s : σ), p.Traced s) ∧
      (∀ (t : ElementType) (b : MemoryBus t), (p.play b).2.idleCycles.toNat =
        min (b.idleCycles.toNat + BusCall.idled (p.callsOn b)) (Size.limit - 1)) ∧
      (∀ (σ : Type) [Bus σ] (l : Link σ), (p.play l).2.idleCycles.toNat =
        min (l.idleCycles.toNat + BusCall.idled (p.callsOn l)) (Size.limit - 1)) ∧
      ∀ (σ : Type) [Bus σ] (l : Link σ) (answers : List BusAnswer) (s : Session σ)
        (schedule : List Session.Action),
        (⟨p.callsOn l, answers, l⟩ : Session σ).run schedule = some s → s.todo = [] →
          s.link.idleCycles.toNat =
            min (l.idleCycles.toNat + BusCall.idled (p.callsOn l)) (Size.limit - 1) := by
  refine ⟨fun σ _ s => p.traced s, fun t b => count_play MemoryBus.countsIdle p b,
    fun σ _ l => count_play Link.countsIdle p l, ?_⟩
  intro σ _ l answers s schedule hrun htodo
  have hcycles := Session.run_cyclesInAll hrun
  rw [Session.cyclesInAll, htodo] at hcycles
  exact (Nat.min_eq_left (Size.toNat_le_largest _)).symm.trans hcycles

/-- The read finds only the low byte of what was written, so the last command is not played. -/
private def mistaken : Player :=
  ⟨[⟨3, .write 1 0x1FF, 1⟩, ⟨2, .read 1 0x1FF, 2⟩, ⟨9, .write 0 1, 3⟩], 20⟩

private def waitedLong : Link (MemoryBus (.uint .w8)) :=
  { Link.connect ⟨⟨⟨2, 1, 1⟩, ⟨2, 1, 1, 8⟩, #[⟨#[.zero 8, .zero 8]⟩]⟩, ⟨0, 1, 2⟩, 0⟩ with
    idleCycles := 0xFFFFFFFFFFFFFFF5 }

private def oneByOne : List Session.Action :=
  [.call, .call, .call, .link .send, .link .receive, .link .serve, .link .reply, .link .await,
    .finish, .call, .call]

theorem play_traced_mistaken :
    mistaken.Traced waitedLong ∧
      mistaken.callsOn waitedLong = [.idle 20, .idle 3, .write 1 0x1FF, .idle 2, .read 1] ∧
      (mistaken.play waitedLong).1 = .error (.refused (.mismatch 2 1 0x1FF 0xFF)) ∧
      ∃ s, (⟨mistaken.callsOn waitedLong, [], waitedLong⟩ : Session _).run oneByOne = some s ∧
        s.todo = [] ∧ s.link.idleCycles.toNat = Size.limit - 1 := by
  have hcalls : mistaken.callsOn waitedLong =
      [.idle 20, .idle 3, .write 1 0x1FF, .idle 2, .read 1] := rfl
  obtain ⟨s, hrun, htodo⟩ : ∃ s, (⟨mistaken.callsOn waitedLong, [], waitedLong⟩ :
      Session _).run oneByOne = some s ∧ s.todo = [] := by
    rw [hcalls]
    exact ⟨_, rfl, rfl⟩
  obtain ⟨htraced, -, -, hcount⟩ := play_traced mistaken
  have hcycles := hcount _ waitedLong [] s oneByOne hrun htodo
  rw [hcalls] at hcycles
  exact ⟨htraced _ waitedLong, hcalls, rfl, s, hrun, htodo, hcycles⟩

end Player

end BankedStore
