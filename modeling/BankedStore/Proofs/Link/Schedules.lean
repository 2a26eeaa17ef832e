import BankedStore.Proofs.Link.Stages

/-!
# Every schedule of a session

Whatever the order in which the two parties take their steps, a session answers
its calls as the remote bus does, has at most one message or reply on its way,
and takes a bounded number of steps.  It can only come to rest with all calls
answered, both ends of both channels dropped and the server gone.
-/

namespace BankedStore

variable {σ : Type}

namespace Link

open Remote

inductive Settled : Option σ → Link σ → Prop
  | finished (bus : σ) (idle : UInt64) :
      Settled (some bus) ⟨.closed, .finished bus, ⟨none, true, true⟩, ⟨none, true, true⟩, idle⟩
  | crashed (slot : Option Message) (idle : UInt64) :
      Settled none ⟨.closed, .crashed, ⟨slot, true, true⟩, ⟨none, true, true⟩, idle⟩

theorem Settled.server_eq {bus : σ} {l : Link σ} (h : Settled (some bus) l) :
    l.server = .finished bus := by
  cases h
  rfl

theorem Resting.inFlight_le {bus : Option σ} {l : Link σ} (h : Resting bus l) :
    l.inFlight ≤ 1 := by
  cases h with
  | waiting => simp [inFlight]
  | crashed client slot => cases slot <;> simp [inFlight]

theorem Leaving.inFlight_le {bus : Option σ} {l : Link σ} (h : Leaving bus l) :
    l.inFlight ≤ 1 := by
  cases h with
  | waiting | finished => simp [inFlight]
  | crashed slot => cases slot <;> simp [inFlight]

variable [Bus σ]

theorem Settled.join_eq {bus : σ} {l : Link σ} (h : Settled (some bus) l) :
    l.join = .ok bus := by
  cases h
  rfl

theorem Pending.inFlight_le {bus : Option σ} {message : Message} {l : Link σ}
    (h : Pending bus message l) : l.inFlight ≤ 1 := by
  cases h with
  | queued | serving | replying | replied => simp [inFlight]
  | cut hcut hl => exact hl.inFlight_le

/-! ## How many steps a link has left -/

def Client.remaining (receiverGone : Bool) : Client → Nat
  | .ready => 2
  | .sending _ => 8
  | .awaiting _ => 4
  | .answered _ _ => 3
  | .closed => if receiverGone then 0 else 1

def Server.remaining (cut lost : Bool) : Server σ → Nat
  | .receiving _ => 3
  | .serving _ _ => 5
  | .replying _ _ => 4
  | .finished _ => 0
  | .crashed => (if cut then 0 else 1) + if lost then 0 else 1

/-- Each place on the way of a message counts for the steps that follow it. -/
def remaining (l : Link σ) : Nat :=
  l.client.remaining l.replies.receiverGone +
    l.server.remaining l.messages.receiverGone l.replies.senderGone +
    3 * l.messages.slot.toList.length

theorem remaining_served_le (bus : σ) (message : Message) (cut lost : Bool) :
    (served bus message).remaining cut lost ≤ 4 := by
  rcases served_cases bus message with ⟨after, reply, hserved⟩ | hserved
  · simp [hserved, Server.remaining]
  · cases cut <;> cases lost <;> simp [hserved, Server.remaining]

theorem remaining_lt {l next : Link σ} {action : Action}
    (hstep : l.step action = some next) : next.remaining < l.remaining := by
  obtain ⟨client, server, ⟨slot, senderGone, cut⟩, ⟨back, lost, receiverGone⟩, idle⟩ := l
  cases action with
  | send =>
      cases client <;> cases cut <;> cases slot <;> simp [Link.step, Link.send] at hstep
      all_goals
        subst hstep
        simp [remaining, Client.remaining]
        try omega
  | await =>
      cases client <;> cases back <;> cases lost <;> simp [Link.step, Link.await] at hstep <;>
        subst hstep <;> simp [remaining, Client.remaining]
  | receive =>
      cases server <;> cases slot <;> cases senderGone <;>
        simp [Link.step, Link.receive, Link.leave] at hstep <;> subst hstep <;>
        simp [remaining, Server.remaining]
  | serve =>
      cases server <;> simp [Link.step, Link.serve] at hstep
      rename_i bus message
      subst hstep
      have hserved := remaining_served_le bus message cut lost
      exact Nat.add_lt_add_right (Nat.add_lt_add_left (Nat.lt_succ_of_le hserved) _) _
  | reply =>
      cases server <;> cases back <;> cases receiverGone <;>
        simp [Link.step, Link.reply, Link.leave] at hstep <;> subst hstep <;>
        simp [remaining, Server.remaining] <;> omega
  | dropMessages =>
      cases server <;> cases cut <;> simp [Link.step, Link.dropMessages] at hstep
      subst hstep
      simp [remaining, Server.remaining]
      omega
  | dropReplies =>
      cases server <;> cases lost <;> simp [Link.step, Link.dropReplies] at hstep
      subst hstep
      simp [remaining, Server.remaining]

end Link

namespace Session

open Link

variable [Bus σ]

namespace Stage

variable {r : Remote σ} {rest : List BusCall} {s : Session σ}

theorem inFlight_le (h : Stage r rest s) : s.link.inFlight ≤ 1 := by
  cases h with
  | ready _ _ hl | sending _ _ _ hl | answered _ _ _ hl => exact hl.inFlight_le
  | awaiting _ _ _ hl => exact hl.inFlight_le
  | closed _ hl => exact hl.inFlight_le

theorem idleCycles_eq (h : Stage r rest s) : s.link.idleCycles = r.idleCycles := by
  cases h with
  | ready _ hidle | sending _ _ hidle | awaiting _ _ hidle | answered _ _ hidle => exact hidle
  | closed hidle => exact hidle

theorem progress (h : Stage r rest s) :
    (∃ action next, s.step action = some next) ∨ rest = [] ∧ Settled r.bus s.link := by
  cases h with
  | ready hclient hidle hl =>
      left
      cases rest with
      | nil => exact ⟨.dropSender, _, by simp [Session.step, Session.dropSender, hclient]; rfl⟩
      | cons call todo =>
          refine ⟨.call, ?_⟩
          cases call <;> simp [Session.step, Session.call, hclient]
  | sending message hclient hidle hl =>
      left
      generalize r.bus = bus at hl
      cases hl with
      | waiting bus =>
          cases hclient
          exact ⟨.link .send, _, rfl⟩
      | crashed client slot cut lost idle hcut =>
          cases hclient
          cases cut with
          | true => exact ⟨.link .send, _, rfl⟩
          | false =>
              cases slot with
              | none => exact ⟨.link .send, _, rfl⟩
              | some waiting => exact ⟨.link .dropMessages, _, rfl⟩
  | awaiting message hclient hidle hl =>
      left
      cases hl with
      | queued server client idle hbus => exact ⟨.link .receive, _, rfl⟩
      | serving server client idle hbus => exact ⟨.link .serve, _, rfl⟩
      | replying after reply client idle hreply => exact ⟨.link .reply, _, rfl⟩
      | replied after reply client idle hreply =>
          cases hclient
          exact ⟨.link .await, _, rfl⟩
      | cut hcut hl =>
          cases hl with
          | crashed client slot cut lost idle hslot =>
              cases hclient
              cases lost with
              | true => exact ⟨.link .await, _, rfl⟩
              | false => exact ⟨.link .dropReplies, _, rfl⟩
  | answered message hclient hidle hl =>
      left
      exact ⟨.finish, by simp [Session.step, Session.finish, hclient]⟩
  | closed hidle hl =>
      generalize r.bus = bus at hl
      cases hl with
      | waiting bus gone idle => exact .inl ⟨.link .receive, _, rfl⟩
      | finished bus gone idle =>
          cases gone with
          | false => exact .inl ⟨.dropReceiver, _, rfl⟩
          | true => exact .inr ⟨rfl, .finished bus idle⟩
      | crashed slot cut lost gone idle =>
          cases cut with
          | false => exact .inl ⟨.link .dropMessages, _, rfl⟩
          | true =>
              cases lost with
              | false => exact .inl ⟨.link .dropReplies, _, rfl⟩
              | true =>
                  cases gone with
                  | false => exact .inl ⟨.dropReceiver, _, rfl⟩
                  | true => exact .inr ⟨rfl, .crashed slot idle⟩

end Stage

/-! ## How many steps are left -/

variable {s next : Session σ}

def remaining (s : Session σ) : Nat :=
  7 * s.todo.length + s.link.remaining

theorem remaining_lt {action : Session.Action} (hstep : s.step action = some next) :
    next.remaining < s.remaining := by
  obtain ⟨todo, answers, l⟩ := s
  cases action with
  | call =>
      obtain ⟨client, server, messages, replies, idle⟩ := l
      cases client <;> rcases todo with _ | ⟨_ | _ | _, todo⟩ <;>
        simp [step, call] at hstep <;> subst hstep <;>
        simp [remaining, Link.remaining, Client.remaining] <;> omega
  | finish =>
      obtain ⟨client, server, messages, replies, idle⟩ := l
      cases client <;> simp [step, finish] at hstep
      subst hstep
      simp [remaining, Link.remaining, Client.remaining]
  | dropSender =>
      obtain ⟨client, server, messages, replies, idle⟩ := l
      cases client <;> cases todo <;> simp [step, dropSender] at hstep
      subst hstep
      cases hgone : replies.receiverGone <;>
        simp [remaining, Link.remaining, Client.remaining, hgone]
  | dropReceiver =>
      obtain ⟨client, server, messages, replies, idle⟩ := l
      cases client <;> simp [step, dropReceiver] at hstep
      obtain ⟨hgone, rfl⟩ := hstep
      simp [remaining, Link.remaining, Client.remaining, hgone]
  | link action =>
      obtain ⟨link, hlink, rfl⟩ := Option.map_eq_some_iff.mp hstep
      exact Nat.add_lt_add_left (Link.remaining_lt hlink) _

theorem length_le_of_run {schedule : List Session.Action} (hrun : s.run schedule = some next) :
    schedule.length + next.remaining ≤ s.remaining := by
  induction schedule generalizing s with
  | nil =>
      cases hrun
      simp
  | cons action schedule ih =>
      obtain ⟨middle, hstep, hrest⟩ := Option.bind_eq_some_iff.mp hrun
      have hlt := remaining_lt hstep
      have hle := ih hrest
      rw [List.length_cons]
      omega

theorem length_le_of_run_start {calls : List BusCall} {bus : σ} {schedule : List Session.Action}
    (hrun : (start calls bus).run schedule = some s) : schedule.length ≤ 7 * calls.length + 5 :=
  Nat.le_of_add_right_le (length_le_of_run hrun)

/-! ## The calls done so far -/

def Follows (bus : σ) (calls : List BusCall) (s : Session σ) : Prop :=
  ∃ done later, calls = done ++ later ∧ s.answers = (Bus.run (⟨some bus, 0⟩ : Remote σ) done).1 ∧
    Stage (Bus.run (⟨some bus, 0⟩ : Remote σ) done).2 later s

theorem follows_start (bus : σ) (calls : List BusCall) : Follows bus calls (start calls bus) :=
  ⟨[], calls, rfl, rfl, .ready rfl rfl (.waiting bus .ready 0)⟩

theorem Follows.step {bus : σ} {calls : List BusCall} (h : Follows bus calls s)
    {action : Session.Action} (hstep : s.step action = some next) : Follows bus calls next := by
  obtain ⟨done, later, hcalls, hanswers, hstage⟩ := h
  cases hstage.step hstep with
  | within hsame hnext => exact ⟨done, later, hcalls, hsame.trans hanswers, hnext⟩
  | past call rest hlater hlast hnext =>
      have hrun := Bus.run_append (⟨some bus, 0⟩ : Remote σ) done [call]
      refine ⟨done ++ [call], rest, ?_, ?_, ?_⟩
      · rw [hcalls, hlater, List.append_assoc]
        rfl
      · rw [hlast, hanswers, hrun]
        rfl
      · rw [hrun]
        exact hnext

theorem Follows.run {bus : σ} {calls : List BusCall} (h : Follows bus calls s)
    {schedule : List Session.Action} (hrun : s.run schedule = some next) :
    Follows bus calls next := by
  induction schedule generalizing s with
  | nil =>
      cases hrun
      exact h
  | cons action schedule ih =>
      obtain ⟨middle, hstep, hrest⟩ := Option.bind_eq_some_iff.mp hrun
      exact ih (h.step hstep) hrest

theorem Follows.inFlight_le {bus : σ} {calls : List BusCall} (h : Follows bus calls s) :
    s.link.inFlight ≤ 1 := by
  obtain ⟨done, later, -, -, hstage⟩ := h
  exact hstage.inFlight_le

theorem Follows.answers_agree {bus : σ} {calls : List BusCall} (h : Follows bus calls s) :
    s.answers <+: (Bus.run (⟨some bus, 0⟩ : Remote σ) calls).1 := by
  obtain ⟨done, later, rfl, hanswers, -⟩ := h
  rw [hanswers, Bus.run_append]
  exact List.prefix_append _ _

theorem Follows.over {bus : σ} {calls : List BusCall} (h : Follows bus calls s)
    (hstuck : ∀ action, s.step action = none) :
    s.answers = (Bus.run (⟨some bus, 0⟩ : Remote σ) calls).1 ∧
      s.link.idleCycles = (Bus.run (⟨some bus, 0⟩ : Remote σ) calls).2.idleCycles ∧
      Settled (Bus.run (⟨some bus, 0⟩ : Remote σ) calls).2.bus s.link := by
  obtain ⟨done, later, rfl, hanswers, hstage⟩ := h
  rcases hstage.progress with ⟨action, next, hstep⟩ | ⟨rfl, hsettled⟩
  · rw [hstuck action] at hstep
    cases hstep
  · rw [List.append_nil]
    exact ⟨hanswers, hstage.idleCycles_eq, hsettled⟩

end Session

end BankedStore
