import BankedStore.Proofs.Playback.Trace

/-!
# A player and the answers it gets

All that a player learns comes as answers to its calls.  So the answers so far tell
its next call, or that there is none, and once there is none they tell what the
playback comes to.  Both are read off a bus that gives prepared answers, whatever
it is asked.
-/

namespace BankedStore

/-- Answers to the calls to come.  A request that finds none of its kind is refused. -/
structure PreparedBus where
  answers : List BusAnswer

instance : Bus PreparedBus where
  write b _ _ :=
    match b.answers with
    | .written answer :: rest => (answer, ⟨rest⟩)
    | _ => (.error (.refused .disconnected), ⟨[]⟩)
  read b _ :=
    match b.answers with
    | .data answer :: rest => (answer, ⟨rest⟩)
    | _ => (.error (.refused .disconnected), ⟨[]⟩)
  idle b _ := ⟨b.answers.tail⟩

theorem BusCall.length_wait_le (cycles : UInt64) : (wait cycles).length ≤ 1 := by
  rw [wait]
  split <;> simp

theorem BusCall.append_cases {front calls done later : List BusCall}
    (h : front ++ calls = done ++ later) :
    (∃ after, done = front ++ after ∧ calls = after ++ later) ∨
      ∃ rest, rest ≠ [] ∧ front = done ++ rest ∧ later = rest ++ calls := by
  rcases List.append_eq_append_iff.mp h with ⟨after, hdone, hcalls⟩ | ⟨rest, hfront, hlater⟩
  · exact .inl ⟨after, hdone, hcalls⟩
  · by_cases hrest : rest = []
    · subst hrest
      exact .inl ⟨[], by simp [hfront], by simp [hlater]⟩
    · exact .inr ⟨rest, hrest, hfront, hlater⟩

variable {σ : Type} [Bus σ]

namespace PreparedBus

theorem perform_eq (s : σ) (call : BusCall) (rest : List BusAnswer) :
    Bus.perform (⟨(Bus.perform s call).1 :: rest⟩ : PreparedBus) call =
      ((Bus.perform s call).1, ⟨rest⟩) := by
  cases call <;> rfl

theorem run_eq (s : σ) (calls : List BusCall) (rest : List BusAnswer) :
    Bus.run (⟨(Bus.run s calls).1 ++ rest⟩ : PreparedBus) calls =
      ((Bus.run s calls).1, ⟨rest⟩) := by
  induction calls generalizing s with
  | nil => rfl
  | cons call calls ih =>
      simp only [Bus.run, List.cons_append]
      rw [perform_eq, ih]

end PreparedBus

namespace Command

theorem PassesOn.prepared {s : σ} {c : Command} (h : c.PassesOn s) (rest : List BusAnswer) :
    c.PassesOn (⟨(Bus.perform s c.request.call).1 :: rest⟩ : PreparedBus) := by
  cases h with
  | write hrequest hanswer => exact .write hrequest (by rw [hrequest]; exact hanswer)
  | read hrequest hanswer => exact .read hrequest (by rw [hrequest]; exact hanswer)

theorem FailsOn.prepared {s : σ} {c : Command} {e : Failure PlayError} (h : c.FailsOn s e)
    (rest : List BusAnswer) :
    c.FailsOn (⟨(Bus.perform s c.request.call).1 :: rest⟩ : PreparedBus) e := by
  cases h with
  | write hrequest hanswer => exact .write hrequest (by rw [hrequest]; exact hanswer)
  | read hrequest hanswer => exact .read hrequest (by rw [hrequest]; exact hanswer)
  | mismatch hrequest hanswer hne => exact .mismatch hrequest (by rw [hrequest]; exact hanswer) hne

end Command

namespace Player

theorem reached_prepared (s : σ) (c : Command) (rest : List BusAnswer) :
    reached (⟨(Bus.run s c.calls).1 ++ rest⟩ : PreparedBus) [] c =
      ⟨(Bus.perform (reached s [] c) c.request.call).1 :: rest⟩ := by
  rw [Command.calls, Bus.run_append, List.append_assoc]
  exact congrArg Prod.snd (PreparedBus.run_eq s (BusCall.wait c.delay) _)

/-! ## The calls of some commands -/

/-- The calls that commands make on a bus, and the error of the one that ends them early. -/
inductive Makes : σ → List Command → List BusCall → Option (Failure PlayError) → Prop
  | nil (s : σ) : Makes s [] [] none
  | passing {s : σ} {c : Command} {commands : List Command} {calls : List BusCall}
      {e : Option (Failure PlayError)} (hpass : c.PassesOn (reached s [] c))
      (hrest : Makes (Bus.run s c.calls).2 commands calls e) :
      Makes s (c :: commands) (c.calls ++ calls) e
  | failing {s : σ} {c : Command} {e : Failure PlayError} (commands : List Command)
      (hfail : c.FailsOn (reached s [] c) e) : Makes s (c :: commands) c.calls (some e)

theorem exists_makes (s : σ) (commands : List Command) : ∃ calls e, Makes s commands calls e := by
  induction commands generalizing s with
  | nil => exact ⟨[], none, .nil s⟩
  | cons c commands ih =>
      rcases c.passesOn_or_failsOn (reached s [] c) with hpass | ⟨e, hfail⟩
      · obtain ⟨calls, e, hrest⟩ := ih (Bus.run s c.calls).2
        exact ⟨_, e, .passing hpass hrest⟩
      · exact ⟨_, some e, .failing commands hfail⟩

namespace Makes

variable {s : σ} {commands : List Command} {calls : List BusCall}
  {e : Option (Failure PlayError)}

theorem recorded {r : Recorded σ} (h : Makes r.bus commands calls e) :
    Makes r commands calls e := by
  generalize hbus : r.bus = s at h
  induction h generalizing r with
  | nil => exact .nil r
  | passing hpass _ ih =>
      subst hbus
      rw [← bus_reached] at hpass
      exact .passing hpass.recorded (ih (r.bus_run _))
  | failing commands hfail =>
      subst hbus
      rw [← bus_reached] at hfail
      exact .failing commands hfail.recorded

theorem playFrom_eq (h : Makes s commands calls e) (report : Report) :
    ∃ counted, playFrom report s commands = (e.elim (.ok counted) .error, (Bus.run s calls).2) := by
  induction h generalizing report with
  | nil => exact ⟨report, rfl⟩
  | @passing s c commands calls e hpass _ ih =>
      have hfirst : AllPassOn s [c] := allPassOn_cons.mpr ⟨hpass, allPassOn_nil _⟩
      obtain ⟨issued, hplay⟩ := playFrom_append hfirst report commands
      rw [List.flatMap_singleton, List.singleton_append] at hplay
      rw [hplay, Bus.run_append]
      exact ih issued
  | failing commands hfail => exact ⟨report, playFrom_of_failsOn hfail report commands⟩

theorem length_le (h : Makes s commands calls e) : calls.length ≤ 2 * commands.length := by
  have hcommand : ∀ c : Command, c.calls.length ≤ 2 := fun c => by
    have := BusCall.length_wait_le c.delay
    rw [Command.calls, List.length_append, List.length_singleton]
    omega
  induction h with
  | nil => exact le_rfl
  | @passing s c commands calls e _ _ ih =>
      have := hcommand c
      rw [List.length_append, List.length_cons]
      omega
  | @failing s c e commands _ =>
      have := hcommand c
      rw [List.length_cons]
      omega

theorem exists_eq_append {c : Command} (h : Makes s (c :: commands) calls e) :
    ∃ rest, calls = c.calls ++ rest := by
  cases h with
  | passing => exact ⟨_, rfl⟩
  | failing => exact ⟨[], (List.append_nil _).symm⟩

theorem exists_of_partly (u : σ) {c : Command} {done rest : List BusCall}
    (hcalls : c.calls = done ++ rest) (hrest : rest ≠ []) (commands : List Command) :
    ∃ more e, Makes u (c :: commands) (done ++ more) e ∧ more.head? = rest.head? := by
  obtain ⟨calls, e, h⟩ := exists_makes u (c :: commands)
  obtain ⟨later, rfl⟩ := h.exists_eq_append
  rw [hcalls, List.append_assoc] at h
  exact ⟨rest ++ later, e, h, List.head?_append_of_ne_nil rest hrest⟩

/-- A bus that gives the answers to some of the calls gets these calls, and then the next one too.
Where all are answered the commands end as they did. -/
theorem prepared (h : Makes s commands calls e) {done later : List BusCall}
    (hsplit : calls = done ++ later) :
    ∃ more e', Makes (⟨(Bus.run s done).1⟩ : PreparedBus) commands (done ++ more) e' ∧
      more.head? = later.head? ∧ (later = [] → e' = e) := by
  induction h generalizing done later with
  | nil s =>
      obtain ⟨rfl, rfl⟩ := List.append_eq_nil_iff.mp hsplit.symm
      exact ⟨[], none, .nil _, rfl, fun _ => rfl⟩
  | @passing s c commands calls e hpass _ ih =>
      rcases BusCall.append_cases hsplit with ⟨after, rfl, hcalls⟩ | ⟨rest, hrest, hcalls, rfl⟩
      · obtain ⟨more, e', hmakes, hmore, hend⟩ := ih hcalls
        refine ⟨more, e', ?_, hmore, hend⟩
        rw [Bus.run_append, List.append_assoc]
        refine .passing ?_ ?_
        · rw [reached_prepared]
          exact hpass.prepared _
        · rw [PreparedBus.run_eq]
          exact hmakes
      · obtain ⟨more, e', hmakes, hmore⟩ := exists_of_partly (⟨(Bus.run s done).1⟩ : PreparedBus)
          hcalls hrest commands
        refine ⟨more, e', hmakes, ?_, fun hnil => absurd (List.append_eq_nil_iff.mp hnil).1 hrest⟩
        rw [hmore, List.head?_append_of_ne_nil rest hrest]
  | @failing s c e commands hfail =>
      by_cases hlater : later = []
      · obtain rfl : c.calls = done := by rw [hsplit, hlater, List.append_nil]
        refine ⟨[], some e, ?_, by rw [hlater], fun _ => rfl⟩
        rw [List.append_nil]
        refine .failing commands ?_
        have hreached := reached_prepared s c []
        rw [List.append_nil] at hreached
        rw [hreached]
        exact hfail.prepared []
      · obtain ⟨more, e', hmakes, hmore⟩ := exists_of_partly (⟨(Bus.run s done).1⟩ : PreparedBus)
          hsplit hlater commands
        exact ⟨more, e', hmakes, hmore, fun hnil => absurd hnil hlater⟩

end Makes

/-! ## The next call and the outcome -/

section Whole

variable {p : Player} {s : σ} {calls : List BusCall} {e : Option (Failure PlayError)}

theorem play_of_makes (h : Makes (p.warmed s) p.commands calls e) :
    p.play s = (e.elim (.ok (.total p.warmup p.commands)) .error,
      (Bus.run s (BusCall.wait p.warmup ++ calls)).2) := by
  obtain ⟨counted, hplay⟩ := h.playFrom_eq (pause p.warmup {} s).1
  rw [← play_eq] at hplay
  rw [hplay, Bus.run_append]
  cases e with
  | none => rw [← report_of_play (congrArg Prod.fst hplay)]; rfl
  | some e => rfl

theorem callsOn_of_makes (h : Makes (p.warmed s) p.commands calls e) :
    p.callsOn s = BusCall.wait p.warmup ++ calls := by
  have hwarm : (p.warmed (⟨s, []⟩ : Recorded σ)).bus = p.warmed s := Recorded.bus_run _ _
  rw [← hwarm] at h
  rw [callsOn, play_of_makes h.recorded, Recorded.calls_run]
  rfl

theorem length_callsOn_le (p : Player) (s : σ) :
    (p.callsOn s).length ≤ 2 * p.commands.length + 1 := by
  obtain ⟨calls, e, h⟩ := exists_makes (p.warmed s) p.commands
  have hcalls := h.length_le
  have hwait := BusCall.length_wait_le p.warmup
  rw [callsOn_of_makes h, List.length_append]
  omega

/-- What the player calls after these answers, if it goes on. -/
def nextCall (p : Player) (answers : List BusAnswer) : Option BusCall :=
  (p.callsOn (⟨answers⟩ : PreparedBus))[answers.length]?

def outcome (p : Player) (answers : List BusAnswer) : Except (Failure PlayError) Report :=
  (p.play (⟨answers⟩ : PreparedBus)).1

theorem warmed_prepared (p : Player) (s : σ) (done : List BusCall) :
    p.warmed (⟨(Bus.run s (BusCall.wait p.warmup ++ done)).1⟩ : PreparedBus) =
      ⟨(Bus.run (p.warmed s) done).1⟩ := by
  rw [Bus.run_append]
  exact congrArg Prod.snd (PreparedBus.run_eq s (BusCall.wait p.warmup) _)

theorem nextCall_of_makes {answers : List BusAnswer}
    (h : Makes (p.warmed (⟨answers⟩ : PreparedBus)) p.commands calls e) {done more : List BusCall}
    (hcalls : BusCall.wait p.warmup ++ calls = done ++ more)
    (hlength : answers.length = done.length) : p.nextCall answers = more.head? := by
  rw [nextCall, callsOn_of_makes h, hcalls, hlength, List.getElem?_append_right le_rfl,
    Nat.sub_self, List.head?_eq_getElem?]

theorem nextCall_run (p : Player) (s : σ) {done later : List BusCall}
    (hsplit : p.callsOn s = done ++ later) : p.nextCall (Bus.run s done).1 = later.head? := by
  obtain ⟨calls, e, hmakes⟩ := exists_makes (p.warmed s) p.commands
  rw [callsOn_of_makes hmakes] at hsplit
  rcases BusCall.append_cases hsplit with ⟨after, rfl, hcalls⟩ | ⟨rest, hrest, hwait, rfl⟩
  · obtain ⟨more, e', hprepared, hmore, -⟩ := hmakes.prepared hcalls
    rw [← warmed_prepared] at hprepared
    rw [nextCall_of_makes hprepared (List.append_assoc ..).symm (Bus.length_run ..), hmore]
  · obtain ⟨calls', e', hprepared⟩ :=
      exists_makes (p.warmed (⟨(Bus.run s done).1⟩ : PreparedBus)) p.commands
    have hcalls : BusCall.wait p.warmup ++ calls' = done ++ (rest ++ calls') := by
      rw [hwait, List.append_assoc]
    rw [nextCall_of_makes hprepared hcalls (Bus.length_run ..),
      List.head?_append_of_ne_nil rest hrest, List.head?_append_of_ne_nil rest hrest]

theorem outcome_run (p : Player) (s : σ) :
    p.outcome (Bus.run s (p.callsOn s)).1 = (p.play s).1 := by
  obtain ⟨calls, e, hmakes⟩ := exists_makes (p.warmed s) p.commands
  obtain ⟨more, e', hprepared, -, hend⟩ := hmakes.prepared (List.append_nil calls).symm
  rw [← warmed_prepared] at hprepared
  rw [outcome, callsOn_of_makes hmakes, play_of_makes hprepared, play_of_makes hmakes, hend rfl]

end Whole

end Player

end BankedStore
