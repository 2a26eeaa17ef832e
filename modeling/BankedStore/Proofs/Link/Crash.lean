import BankedStore.Proofs.Link.Transport

/-!
# A server that crashes

A map may cover more than its memory has, or more words than can be counted.  Then
a request can fault, and over a link it crashes the server.  The calls before the
first fault come to what they come to on the direct bus.  From that fault on every
request is cut off, in whatever order the server drops its channel ends and
whether or not it has dropped them when the request is sent.
-/

namespace BankedStore

/-- What a call comes to when nobody serves it. -/
def BusCall.cutOff : BusCall → BusAnswer
  | write _ _ => .written (.error (.refused .disconnected))
  | read _ => .data (.error (.refused .disconnected))
  | idle _ => .idled

namespace Remote

/-! ## After the crash -/

section Crashed

variable {σ : Type} [Bus σ] {r : Remote σ}

theorem answer_disconnected (message : Link.Message) :
    message.answer (.error .disconnected) = message.call.cutOff := by
  cases message <;> rfl

theorem perform_of_crashed (h : r.bus = none) (call : BusCall) :
    (Bus.perform r call).1 = call.cutOff ∧ (Bus.perform r call).2.bus = none := by
  obtain ⟨bus, idle⟩ := r
  cases h
  cases call <;> exact ⟨rfl, rfl⟩

theorem run_of_crashed (h : r.bus = none) (calls : List BusCall) :
    (Bus.run r calls).1 = calls.map BusCall.cutOff ∧ (Bus.run r calls).2.bus = none := by
  induction calls generalizing r with
  | nil => exact ⟨rfl, h⟩
  | cons call calls ih =>
      obtain ⟨hanswer, hnext⟩ := perform_of_crashed h call
      obtain ⟨hanswers, hlast⟩ := ih hnext
      refine ⟨?_, hlast⟩
      change (Bus.perform r call).1 :: _ = call.cutOff :: _
      rw [hanswer, hanswers]

theorem served_of_faulted {bus : σ} {message : Link.Message}
    (h : (Bus.perform bus message.call).1.Faulted) : Link.served bus message = .crashed := by
  cases message with
  | write addr data =>
      simp only [Link.Message.call, Bus.perform] at h
      rw [Link.served]
      generalize Bus.write bus addr data = outcome at h ⊢
      rcases outcome with ⟨⟨⟨cause⟩ | ⟨reason⟩⟩ | done, after⟩
      · rfl
      · exact h.elim
      · exact h.elim
  | read addr =>
      simp only [Link.Message.call, Bus.perform] at h
      rw [Link.served]
      generalize Bus.read bus addr = outcome at h ⊢
      rcases outcome with ⟨⟨⟨cause⟩ | ⟨reason⟩⟩ | value, after⟩
      · rfl
      · exact h.elim
      · exact h.elim

end Crashed

/-! ## Up to the crash -/

variable {t : ElementType} {r : Remote (MemoryBus t)} {direct : MemoryBus t}

theorem Attached.perform (h : Attached r direct) {call : BusCall}
    (hcall : ¬ (Bus.perform direct call).1.Faulted) :
    (Bus.perform r call).1 = (Bus.perform direct call).1 ∧
      Attached (Bus.perform r call).2 (Bus.perform direct call).2 := by
  cases call with
  | write addr data => exact h.message (.write addr data) hcall
  | read addr => exact h.message (.read addr) hcall
  | idle cycles =>
      exact ⟨rfl, h.bus, congrArg (Size.saturatingAdd · cycles) h.idleCycles⟩

theorem Attached.run (h : Attached r direct) {calls : List BusCall}
    (hcalls : ∀ answer ∈ (Bus.run direct calls).1, ¬ answer.Faulted) :
    (Bus.run r calls).1 = (Bus.run direct calls).1 ∧
      Attached (Bus.run r calls).2 (Bus.run direct calls).2 := by
  induction calls generalizing r direct with
  | nil => exact ⟨rfl, h⟩
  | cons call calls ih =>
      obtain ⟨hfirst, hrest⟩ := List.forall_mem_cons.mp hcalls
      obtain ⟨hanswer, hnext⟩ := h.perform hfirst
      obtain ⟨hanswers, hlast⟩ := ih hnext hrest
      refine ⟨?_, hlast⟩
      change (Bus.perform r call).1 :: _ = (Bus.perform direct call).1 :: _
      rw [hanswer]
      exact congrArg _ hanswers

theorem Attached.crash (h : Attached r direct) {call : BusCall}
    (hcall : (Bus.perform direct call).1.Faulted) :
    (Bus.perform r call).1 = call.cutOff ∧ (Bus.perform r call).2.bus = none := by
  have hmessage : ∀ message : Link.Message, (Bus.perform direct message.call).1.Faulted →
      (Bus.perform r message.call).1 = message.call.cutOff ∧
        (Bus.perform r message.call).2.bus = none := by
    intro message hfault
    have hserver : (Bus.perform { direct with idleCycles := 0 } message.call).1.Faulted := by
      rw [(perform_message_reset direct message).1]
      exact hfault
    rw [perform_message, h.bus, respond_of_crashed (served_of_faulted hserver)]
    exact ⟨answer_disconnected message, rfl⟩
  cases call with
  | write addr data => exact hmessage (.write addr data) hcall
  | read addr => exact hmessage (.read addr) hcall
  | idle cycles => exact hcall.elim

/-- The remote bus answers the calls before the first fault and is gone from then on. -/
theorem Attached.run_crash (h : Attached r direct) {before : List BusCall} {call : BusCall}
    (hbefore : ∀ answer ∈ (Bus.run direct before).1, ¬ answer.Faulted)
    (hcall : (Bus.perform (Bus.run direct before).2 call).1.Faulted) (after : List BusCall) :
    (Bus.run r (before ++ call :: after)).1 =
        (Bus.run direct before).1 ++ (call :: after).map BusCall.cutOff ∧
      (Bus.run r (before ++ call :: after)).2.bus = none := by
  obtain ⟨hanswers, hattached⟩ := h.run hbefore
  obtain ⟨hcut, hgone⟩ := hattached.crash hcall
  obtain ⟨hlater, hlast⟩ := run_of_crashed hgone after
  have hrest : (Bus.run (Bus.run r before).2 (call :: after)).1 =
      (call :: after).map BusCall.cutOff := by
    change (Bus.perform (Bus.run r before).2 call).1 :: _ = call.cutOff :: _
    rw [hcut, hlater]
  rw [Bus.run_append, hanswers, hrest]
  exact ⟨rfl, hlast⟩

end Remote

namespace Link

theorem Settled.join_crashed {σ : Type} [Bus σ] {l : Link σ} (h : Settled none l) :
    l.server = .crashed ∧ l.join = .error .serverCrashed := by
  cases h
  exact ⟨rfl, rfl⟩

end Link

namespace Session

variable {t : ElementType}

/-- Whatever the memory and the map, let `call` be the first of the calls to fault on the direct
bus.  On every schedule the calls before it are answered as there, and it and all later requests
are cut off.  A schedule cannot go on for ever, and it stops only where every call is answered and
joining finds that the server has crashed.  Taking the calls round by round is one such schedule. -/
theorem run_until_crash (m : Memory t) (map : AddressMap) {before after : List BusCall}
    {call : BusCall}
    (hbefore : ∀ answer ∈ (Bus.run (⟨m, map, 0⟩ : MemoryBus t) before).1, ¬ answer.Faulted)
    (hcall : (Bus.perform (Bus.run (⟨m, map, 0⟩ : MemoryBus t) before).2 call).1.Faulted) :
    (∀ schedule s,
      (start (before ++ call :: after) (⟨m, map, 0⟩ : MemoryBus t)).run schedule = some s →
      s.answers <+:
          (Bus.run (⟨m, map, 0⟩ : MemoryBus t) before).1 ++
            (call :: after).map BusCall.cutOff ∧
        schedule.length ≤ 7 * (before ++ call :: after).length + 5 ∧
        ((∀ action, s.step action = none) →
          s.answers =
              (Bus.run (⟨m, map, 0⟩ : MemoryBus t) before).1 ++
                (call :: after).map BusCall.cutOff ∧
            s.link.server = .crashed ∧ s.link.join = .error .serverCrashed)) ∧
      (Bus.run (Link.connect (⟨m, map, 0⟩ : MemoryBus t)) (before ++ call :: after)).1 =
          (Bus.run (⟨m, map, 0⟩ : MemoryBus t) before).1 ++
            (call :: after).map BusCall.cutOff ∧
        (Bus.run (Link.connect (⟨m, map, 0⟩ : MemoryBus t)) (before ++ call :: after)).2.join =
          .error .serverCrashed := by
  have hstart : Remote.Attached (⟨some ⟨m, map, 0⟩, 0⟩ : Remote (MemoryBus t)) ⟨m, map, 0⟩ :=
    ⟨rfl, rfl⟩
  obtain ⟨hanswers, hgone⟩ := hstart.run_crash hbefore hcall after
  constructor
  · intro schedule s hrun
    have hfollows := (follows_start (⟨m, map, 0⟩ : MemoryBus t) _).run hrun
    refine ⟨hanswers ▸ hfollows.answers_agree, length_le_of_run_start hrun, fun hstuck => ?_⟩
    obtain ⟨hall, -, hsettled⟩ := hfollows.over hstuck
    rw [hgone] at hsettled
    exact ⟨hall.trans hanswers, hsettled.join_crashed⟩
  · obtain ⟨hlink, hjoin, -⟩ :=
      Link.run_connect_eq (⟨m, map, 0⟩ : MemoryBus t) (before ++ call :: after)
    rw [hgone] at hjoin
    exact ⟨hlink.trans hanswers, hjoin⟩

private def shortBytes : Memory (.uint .w8) :=
  ⟨⟨2, 1, 1⟩, ⟨2, 1, 1, 8⟩, #[⟨#[.zero 8, .zero 8]⟩]⟩

/-- The crashed server drops its replies at once and its messages much later: the request in
between is still sent, and the one after it finds the channel full. -/
private def tearDown : List Action :=
  [.call, .link .send, .link .receive, .link .serve, .link .reply, .link .await, .finish,
    .call, .link .send, .link .receive, .link .serve, .link .dropReplies, .link .await, .finish,
    .call, .link .send, .link .await, .finish, .call,
    .call, .link .dropMessages, .link .send, .finish, .dropSender, .dropReceiver]

theorem run_until_crash_bytes :
    Memory.new (.uint .w8) ⟨2, 1, 1⟩ = .ok shortBytes ∧
      (∀ answer ∈ (Bus.run (⟨shortBytes, ⟨0, 1, 3⟩, 0⟩ : MemoryBus (.uint .w8))
        [.write 0 7]).1, ¬ answer.Faulted) ∧
      (Bus.perform (Bus.run (⟨shortBytes, ⟨0, 1, 3⟩, 0⟩ : MemoryBus (.uint .w8))
        [.write 0 7]).2 (.read 2)).1.Faulted ∧
      ∃ s, (start [.write 0 7, .read 2, .read 0, .idle 5, .write 1 1]
          (⟨shortBytes, ⟨0, 1, 3⟩, 0⟩ : MemoryBus (.uint .w8))).run tearDown = some s ∧
        s.answers = [.written (.ok ()), .data (.error (.refused .disconnected)),
          .data (.error (.refused .disconnected)), .idled,
          .written (.error (.refused .disconnected))] ∧
        s.link.join = .error .serverCrashed := by
  have hbefore : ∀ answer ∈ (Bus.run (⟨shortBytes, ⟨0, 1, 3⟩, 0⟩ : MemoryBus (.uint .w8))
      [.write 0 7]).1, ¬ answer.Faulted := by
    intro answer hanswer
    rw [List.mem_singleton.mp hanswer]
    exact id
  have hcall : (Bus.perform (Bus.run (⟨shortBytes, ⟨0, 1, 3⟩, 0⟩ : MemoryBus (.uint .w8))
      [.write 0 7]).2 (.read 2)).1.Faulted := trivial
  obtain ⟨s, hrun⟩ : ∃ s, (start [.write 0 7, .read 2, .read 0, .idle 5, .write 1 1]
      (⟨shortBytes, ⟨0, 1, 3⟩, 0⟩ : MemoryBus (.uint .w8))).run tearDown = some s := ⟨_, rfl⟩
  have hstuck : ∀ action, s.step action = none := by
    cases hrun
    rintro (_ | _ | _ | _ | ⟨_ | _ | _ | _ | _ | _ | _⟩) <;> rfl
  obtain ⟨-, -, hover⟩ := (run_until_crash shortBytes ⟨0, 1, 3⟩ hbefore hcall).1 tearDown s hrun
  obtain ⟨hanswers, -, hjoin⟩ := hover hstuck
  exact ⟨rfl, hbefore, hcall, s, hrun, hanswers.trans rfl, hjoin⟩

end Session

end BankedStore
