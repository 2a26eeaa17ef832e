import BankedStore.Proofs.Link.Session

/-!
# Calls taken round by round

A call on a link offers every action once, in a fixed order.  That order is one
schedule among many, and it carries each message to the server and back within
the round.  So a link that is used as a bus is the remote bus.
-/

namespace BankedStore

namespace Link

open Remote

variable {σ : Type}

/-- The link between two calls: its server waits for a message, or has crashed and is gone. -/
inductive Between : Link σ → Remote σ → Prop
  | waiting (bus : σ) (idle : UInt64) :
      Between ⟨.ready, .receiving bus, {}, {}, idle⟩ ⟨some bus, idle⟩
  | crashed (idle : UInt64) :
      Between ⟨.ready, .crashed, ⟨none, false, true⟩, ⟨none, true, false⟩, idle⟩ ⟨none, idle⟩

variable [Bus σ]

theorem run_served (bus : σ) (message : Message) (idle : UInt64) (todo : List BusCall)
    (answers : List BusAnswer) (rest : List Session.Action) :
    (⟨message.call :: todo, answers, ⟨.ready, .receiving bus, {}, {}, idle⟩⟩ : Session σ).run
        ([.call, .link .send, .link .receive, .link .serve] ++ rest) =
      (⟨todo, answers, ⟨.awaiting message, served bus message, {}, {}, idle⟩⟩ : Session σ).run
        rest := by
  rw [Session.run_append]
  cases message <;> rfl

theorem call_served (bus : σ) (message : Message) (idle : UInt64) :
    (⟨.ready, .receiving bus, {}, {}, idle⟩ : Link σ).call message =
      let l := [.reply, .dropMessages, .dropReplies, .await].foldl
        (fun l action => (l.step action).getD l)
        (⟨.awaiting message, served bus message, {}, {}, idle⟩ : Link σ)
      match l.client with
      | .answered _ answer => (answer, { l with client := .ready })
      | _ => (.error .disconnected, l) :=
  rfl

theorem Between.call_eq {l : Link σ} {r : Remote σ} (h : Between l r) (message : Message) :
    ∃ next schedule, l.call message = ((respond r.bus message).1, next) ∧
      Between next { r with bus := (respond r.bus message).2 } ∧
      ∀ todo answers, (⟨message.call :: todo, answers, l⟩ : Session σ).run schedule =
        some ⟨todo, answers ++ [message.answer (respond r.bus message).1], next⟩ := by
  cases h with
  | waiting bus idle =>
      rcases served_cases bus message with ⟨after, reply, hserved⟩ | hserved
      · rw [respond_of_replying hserved]
        refine ⟨_, [.call, .link .send, .link .receive, .link .serve] ++
          [.link .reply, .link .await, .finish], ?_, .waiting after idle, fun todo answers => ?_⟩
        · rw [call_served, hserved]
          rfl
        · rw [run_served, hserved]
          rfl
      · rw [respond_of_crashed hserved]
        refine ⟨_, [.call, .link .send, .link .receive, .link .serve] ++
          [.link .dropMessages, .link .dropReplies, .link .await, .finish], ?_, .crashed idle,
          fun todo answers => ?_⟩
        · rw [call_served, hserved]
          rfl
        · rw [run_served, hserved]
          rfl
  | crashed idle =>
      refine ⟨_, [.call, .link .send, .finish], rfl, .crashed idle, fun todo answers => ?_⟩
      cases message <;> rfl

theorem Between.perform_eq {l : Link σ} {r : Remote σ} (h : Between l r) (call : BusCall) :
    (Bus.perform l call).1 = (Bus.perform r call).1 ∧
      Between (Bus.perform l call).2 (Bus.perform r call).2 ∧
      ∃ schedule, ∀ todo answers, (⟨call :: todo, answers, l⟩ : Session σ).run schedule =
        some ⟨todo, answers ++ [(Bus.perform l call).1], (Bus.perform l call).2⟩ := by
  cases call with
  | write addr data =>
      obtain ⟨next, schedule, hcall, hnext, hschedule⟩ := h.call_eq (.write addr data)
      simp only [Bus.perform, Bus.write, hcall]
      exact ⟨rfl, hnext, schedule, hschedule⟩
  | read addr =>
      obtain ⟨next, schedule, hcall, hnext, hschedule⟩ := h.call_eq (.read addr)
      simp only [Bus.perform, Bus.read, hcall]
      exact ⟨rfl, hnext, schedule, hschedule⟩
  | idle cycles =>
      cases h with
      | waiting bus idle => exact ⟨rfl, .waiting bus _, [.call], fun todo answers => rfl⟩
      | crashed idle => exact ⟨rfl, .crashed _, [.call], fun todo answers => rfl⟩

theorem simulation_between : Bus.Simulation (Between (σ := σ)) := by
  intro l r h call
  obtain ⟨hanswer, hnext, -⟩ := h.perform_eq call
  exact ⟨hanswer, hnext⟩

theorem Between.join_eq {l : Link σ} {r : Remote σ} (h : Between l r) :
    l.join = r.bus.elim (.error .serverCrashed) .ok := by
  cases h <;> rfl

theorem Between.exists_schedule {l : Link σ} {r : Remote σ} (h : Between l r)
    (calls : List BusCall) (answers : List BusAnswer) :
    ∃ schedule, (⟨calls, answers, l⟩ : Session σ).run schedule =
      some ⟨[], answers ++ (Bus.run l calls).1, (Bus.run l calls).2⟩ := by
  induction calls generalizing l r answers with
  | nil => exact ⟨[], by simp [Session.run, Bus.run]⟩
  | cons call calls ih =>
      obtain ⟨-, hnext, schedule, hschedule⟩ := h.perform_eq call
      obtain ⟨rest, hrest⟩ := ih hnext (answers ++ [(Bus.perform l call).1])
      refine ⟨schedule ++ rest, ?_⟩
      rw [Session.run_append, hschedule]
      simpa [Bus.run] using hrest

/-- A link used as a bus gives the answers of the remote bus and hands its bus back.  Its run is
one of the schedules of the session. -/
theorem run_connect_eq (bus : σ) (calls : List BusCall) :
    (Bus.run (connect bus) calls).1 = (Bus.run (⟨some bus, 0⟩ : Remote σ) calls).1 ∧
      (Bus.run (connect bus) calls).2.join =
        (Bus.run (⟨some bus, 0⟩ : Remote σ) calls).2.bus.elim (.error .serverCrashed) .ok ∧
      ∃ schedule, (Session.start calls bus).run schedule =
        some ⟨[], (Bus.run (connect bus) calls).1, (Bus.run (connect bus) calls).2⟩ := by
  obtain ⟨hanswers, hlast⟩ := simulation_between.run (.waiting bus 0) calls
  exact ⟨hanswers, hlast.join_eq, (Between.waiting bus 0).exists_schedule calls []⟩

end Link

end BankedStore
