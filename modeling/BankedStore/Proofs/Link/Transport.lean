import BankedStore.Proofs.Bus.FlatArray
import BankedStore.Proofs.Link.Rounds
import BankedStore.Proofs.Link.Schedules

/-!
# A memory behind a link

A memory under a map within it never faults, so a server of it never crashes and
the remote bus is the memory's own bus.  Every schedule of a session with such a
server therefore answers each call as a direct call would be answered.
-/

namespace BankedStore

variable {t : ElementType}

namespace Remote

structure Attached (r : Remote (MemoryBus t)) (direct : MemoryBus t) : Prop where
  bus : r.bus = some { direct with idleCycles := 0 }
  idleCycles : r.idleCycles = direct.idleCycles

/-- The served memory is the one on the direct bus; idle cycles are counted by the client. -/
structure Serves (r : Remote (MemoryBus t)) (direct : MemoryBus t) : Prop where
  bus : r.bus = some { direct with idleCycles := 0 }
  idleCycles : r.idleCycles = direct.idleCycles
  sound : direct.memory.Sound
  within : direct.map.Within direct.memory.geometry

/-- Requests neither see nor move the count of idle cycles. -/
theorem perform_message_reset (b : MemoryBus t) (message : Link.Message) :
    Bus.perform { b with idleCycles := 0 } message.call =
        ((Bus.perform b message.call).1,
          { (Bus.perform b message.call).2 with idleCycles := 0 }) ∧
      (Bus.perform b message.call).2.idleCycles = b.idleCycles := by
  cases message with
  | read addr => exact ⟨rfl, rfl⟩
  | write addr data =>
      change Bus.perform { b with idleCycles := 0 } (.write addr data) =
          ((Bus.perform b (.write addr data)).1,
            { (Bus.perform b (.write addr data)).2 with idleCycles := 0 }) ∧
        (Bus.perform b (.write addr data)).2.idleCycles = b.idleCycles
      simp only [Bus.perform, Bus.write, MemoryBus.write]
      have hwritten : MemoryBus.written { b with idleCycles := 0 } addr data =
          b.written addr data := rfl
      rw [hwritten]
      cases b.written addr data <;> exact ⟨rfl, rfl⟩

theorem Attached.message {r : Remote (MemoryBus t)} {direct : MemoryBus t} (h : Attached r direct)
    (message : Link.Message) (hmessage : ¬ (Bus.perform direct message.call).1.Faulted) :
    (Bus.perform r message.call).1 = (Bus.perform direct message.call).1 ∧
      Attached (Bus.perform r message.call).2 (Bus.perform direct message.call).2 := by
  obtain ⟨bus, idle⟩ := r
  obtain ⟨rfl, rfl⟩ := h
  obtain ⟨hreset, hidle⟩ := perform_message_reset direct message
  have hserver : ¬ (Bus.perform { direct with idleCycles := 0 } message.call).1.Faulted := by
    rw [hreset]
    exact hmessage
  rw [perform_of_not_faulted hserver, hreset]
  exact ⟨rfl, rfl, hidle.symm⟩

theorem serves_message {r : Remote (MemoryBus t)} {direct : MemoryBus t} (h : Serves r direct)
    (message : Link.Message) :
    (Bus.perform r message.call).1 = (Bus.perform direct message.call).1 ∧
      Serves (Bus.perform r message.call).2 (Bus.perform direct message.call).2 := by
  have hattached : Attached r direct := ⟨h.bus, h.idleCycles⟩
  have hserved := MemoryBus.perform_served h.sound h.within message.call
  obtain ⟨hanswer, hnext⟩ := hattached.message message hserved.not_faulted
  obtain ⟨hsound, hwithin⟩ := MemoryBus.perform_keeps h.sound h.within message.call
  exact ⟨hanswer, hnext.bus, hnext.idleCycles, hsound, hwithin⟩

theorem simulation_serves : Bus.Simulation (Serves (t := t)) := by
  intro r direct h call
  cases call with
  | write addr data => exact serves_message h (.write addr data)
  | read addr => exact serves_message h (.read addr)
  | idle cycles =>
      exact ⟨rfl, h.bus, congrArg (Size.saturatingAdd · cycles) h.idleCycles, h.sound, h.within⟩

theorem serves_direct {m : Memory t} {map : AddressMap} (hm : m.Sound)
    (hmap : map.Within m.geometry) :
    Serves (⟨some ⟨m, map, 0⟩, 0⟩ : Remote (MemoryBus t)) ⟨m, map, 0⟩ :=
  ⟨rfl, rfl, hm, hmap⟩

end Remote

variable {m : Memory t} {map : AddressMap}

theorem Link.run_connect_eq_direct (hm : m.Reachable) (hmap : map.Within m.geometry)
    (calls : List BusCall) :
    (Bus.run (Link.connect (⟨m, map, 0⟩ : MemoryBus t)) calls).1 =
        (Bus.run (⟨m, map, 0⟩ : MemoryBus t) calls).1 ∧
      ∃ b, (Bus.run (Link.connect (⟨m, map, 0⟩ : MemoryBus t)) calls).2.join = .ok b ∧
        b.memory = (Bus.run (⟨m, map, 0⟩ : MemoryBus t) calls).2.memory := by
  obtain ⟨hanswers, hfinal⟩ :=
    Remote.simulation_serves.run (Remote.serves_direct hm.sound hmap) calls
  obtain ⟨hlink, hjoin, -⟩ := run_connect_eq (⟨m, map, 0⟩ : MemoryBus t) calls
  rw [hfinal.bus] at hjoin
  exact ⟨hlink.trans hanswers, _, hjoin, rfl⟩

namespace Session

/-- In every state that a schedule reaches at most one message or reply is on its way, and the
answers so far are those of the direct bus.  A schedule cannot go on for ever, and it stops only
where every call is answered and the server has handed back the memory of the direct bus. -/
theorem run_eq_direct (hm : m.Reachable) (hmap : map.Within m.geometry) {calls : List BusCall}
    {schedule : List Action} {s : Session (MemoryBus t)}
    (hrun : (start calls (⟨m, map, 0⟩ : MemoryBus t)).run schedule = some s) :
    s.link.inFlight ≤ 1 ∧
      s.answers <+: (Bus.run (⟨m, map, 0⟩ : MemoryBus t) calls).1 ∧
      (∀ answer ∈ s.answers, answer.Served) ∧
      schedule.length ≤ 7 * calls.length + 5 ∧
      ((∀ action, s.step action = none) →
        s.answers = (Bus.run (⟨m, map, 0⟩ : MemoryBus t) calls).1 ∧
          s.link.idleCycles = (Bus.run (⟨m, map, 0⟩ : MemoryBus t) calls).2.idleCycles ∧
          ∃ b, s.link.server = .finished b ∧ s.link.join = .ok b ∧
            b.memory = (Bus.run (⟨m, map, 0⟩ : MemoryBus t) calls).2.memory) := by
  have hsound := hm.sound
  have hfollows := (follows_start (⟨m, map, 0⟩ : MemoryBus t) calls).run hrun
  obtain ⟨hanswers, hfinal⟩ :=
    Remote.simulation_serves.run (Remote.serves_direct hsound hmap) calls
  have hsofar := hfollows.answers_agree
  rw [hanswers] at hsofar
  refine ⟨hfollows.inFlight_le, hsofar, ?_, length_le_of_run_start hrun, ?_⟩
  · intro answer hanswer
    exact MemoryBus.run_served (b := ⟨m, map, 0⟩) hsound hmap calls answer
      (hsofar.subset hanswer)
  · intro hstuck
    obtain ⟨hall, hidle, hsettled⟩ := hfollows.over hstuck
    rw [hfinal.bus] at hsettled
    exact ⟨hall.trans hanswers, hidle.trans hfinal.idleCycles, _, hsettled.server_eq,
      hsettled.join_eq, rfl⟩

private def twoBytes : Memory (.uint .w8) :=
  ⟨⟨2, 1, 1⟩, ⟨2, 1, 1, 8⟩, #[⟨#[.zero 8, .zero 8]⟩]⟩

private def turns : List Action :=
  [.call, .link .send, .link .receive, .link .serve, .link .reply, .link .await, .finish,
    .call, .link .send, .link .receive, .link .serve, .link .reply, .link .await, .finish,
    .dropSender, .dropReceiver, .link .receive]

theorem run_eq_direct_bytes :
    Memory.new (.uint .w8) ⟨2, 1, 1⟩ = .ok twoBytes ∧ twoBytes.Reachable ∧
      (⟨0, 1, 2⟩ : AddressMap).Within twoBytes.geometry ∧
      ∃ s, (start [.write 1 0x1FF, .read 1]
          (⟨twoBytes, ⟨0, 1, 2⟩, 0⟩ : MemoryBus (.uint .w8))).run turns = some s ∧
        s.link.inFlight ≤ 1 ∧ s.answers = [.written (.ok ()), .data (.ok 0xFF)] := by
  have hm : twoBytes.Reachable := ⟨⟨2, 1, 1⟩, twoBytes, [], by decide, by decide, rfl, rfl⟩
  have hmap : (⟨0, 1, 2⟩ : AddressMap).Within twoBytes.geometry :=
    ⟨⟨8, by decide, rfl⟩, by decide, by decide⟩
  refine ⟨rfl, hm, hmap, ?_⟩
  obtain ⟨s, hrun⟩ : ∃ s, (start [.write 1 0x1FF, .read 1]
      (⟨twoBytes, ⟨0, 1, 2⟩, 0⟩ : MemoryBus (.uint .w8))).run turns = some s := ⟨_, rfl⟩
  obtain ⟨hflight, -, -, -, hover⟩ := run_eq_direct hm hmap hrun
  have hstuck : ∀ action, s.step action = none := by
    cases hrun
    rintro (_ | _ | _ | _ | ⟨_ | _ | _ | _ | _ | _ | _⟩) <;> rfl
  exact ⟨s, hrun, hflight, (hover hstuck).1.trans rfl⟩

end Session

end BankedStore
