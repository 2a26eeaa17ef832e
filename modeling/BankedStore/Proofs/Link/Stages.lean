import Mathlib.Data.List.Basic
import BankedStore.Proofs.Link.Session

/-!
# The stages of a session

Between calls both channels are empty and the server waits for a message; a call
takes its message to the server and its reply back, one place after the other.
A crashed server leaves its channel ends, and from then on every call is cut off.
These stages are kept by every step of either party, so at each point of any
schedule the calls done so far have come to what they come to on the remote bus.
-/

namespace BankedStore

variable {σ : Type}

namespace Link

open Remote

/-- The server waits for a message, or it has crashed.  A message to a crashed server stays in
the channel until the server's end is gone. -/
inductive Resting : Option σ → Link σ → Prop
  | waiting (bus : σ) (client : Client) (idle : UInt64) :
      Resting (some bus) ⟨client, .receiving bus, {}, {}, idle⟩
  | crashed (client : Client) (slot : Option Message) (cut lost : Bool) (idle : UInt64)
      (hcut : cut = true → slot = none) :
      Resting none ⟨client, .crashed, ⟨slot, false, cut⟩, ⟨none, lost, false⟩, idle⟩

theorem Resting.reset {bus : Option σ} {l : Link σ} (h : Resting bus l) (client : Client)
    (idle : UInt64) : Resting bus { l with client, idleCycles := idle } := by
  cases h with
  | waiting bus => exact .waiting bus client idle
  | crashed _ slot cut lost _ hcut => exact .crashed client slot cut lost idle hcut

inductive Leaving : Option σ → Link σ → Prop
  | waiting (bus : σ) (gone : Bool) (idle : UInt64) :
      Leaving (some bus) ⟨.closed, .receiving bus, ⟨none, true, false⟩, ⟨none, false, gone⟩, idle⟩
  | finished (bus : σ) (gone : Bool) (idle : UInt64) :
      Leaving (some bus) ⟨.closed, .finished bus, ⟨none, true, true⟩, ⟨none, true, gone⟩, idle⟩
  | crashed (slot : Option Message) (cut lost gone : Bool) (idle : UInt64) :
      Leaving none ⟨.closed, .crashed, ⟨slot, true, cut⟩, ⟨none, lost, gone⟩, idle⟩

theorem Resting.leaving {bus : Option σ} {l : Link σ} (h : Resting bus l) :
    Leaving bus
      { l with client := .closed, messages := { l.messages with senderGone := true } } := by
  cases h with
  | waiting bus client idle => exact .waiting bus false idle
  | crashed client slot cut lost idle hcut => exact .crashed slot cut lost false idle

theorem Leaving.dropReceiver {bus : Option σ} {l : Link σ} (h : Leaving bus l) :
    Leaving bus
      { l with
        client := .closed
        replies := { l.replies with slot := none, receiverGone := true } } := by
  cases h with
  | waiting bus gone idle => exact .waiting bus true idle
  | finished bus gone idle => exact .finished bus true idle
  | crashed slot cut lost gone idle => exact .crashed slot cut lost true idle

theorem Leaving.client_eq {bus : Option σ} {l : Link σ} (h : Leaving bus l) :
    l.client = .closed := by
  cases h <;> rfl

variable [Bus σ]

inductive Pending (bus : Option σ) (message : Message) : Link σ → Prop
  | queued (server : σ) (client : Client) (idle : UInt64) (hbus : bus = some server) :
      Pending bus message ⟨client, .receiving server, ⟨some message, false, false⟩, {}, idle⟩
  | serving (server : σ) (client : Client) (idle : UInt64) (hbus : bus = some server) :
      Pending bus message ⟨client, .serving server message, {}, {}, idle⟩
  | replying (after : σ) (reply : Reply) (client : Client) (idle : UInt64)
      (hreply : respond bus message = (.ok reply, some after)) :
      Pending bus message ⟨client, .replying after reply, {}, {}, idle⟩
  | replied (after : σ) (reply : Reply) (client : Client) (idle : UInt64)
      (hreply : respond bus message = (.ok reply, some after)) :
      Pending bus message ⟨client, .receiving after, {}, ⟨some reply, false, false⟩, idle⟩
  | cut {l : Link σ} (hcut : respond bus message = (.error .disconnected, none))
      (hl : Resting none l) : Pending bus message l

/-! ## Steps of the server -/

def Action.OfServer : Action → Prop
  | .send | .await => False
  | _ => True

theorem server_step_keeps {l next : Link σ} {action : Action} (haction : action.OfServer)
    (hstep : l.step action = some next) :
    next.client = l.client ∧ next.idleCycles = l.idleCycles := by
  obtain ⟨client, server, ⟨slot, senderGone, cut⟩, ⟨back, lost, receiverGone⟩, idle⟩ := l
  cases action with
  | send | await => exact haction.elim
  | receive =>
      cases server <;> cases slot <;> cases senderGone <;>
        simp [Link.step, Link.receive, Link.leave] at hstep <;> subst hstep <;> exact ⟨rfl, rfl⟩
  | serve =>
      cases server <;> simp [Link.step, Link.serve] at hstep
      subst hstep
      exact ⟨rfl, rfl⟩
  | reply =>
      cases server <;> cases back <;> cases receiverGone <;>
        simp [Link.step, Link.reply, Link.leave] at hstep <;> subst hstep <;> exact ⟨rfl, rfl⟩
  | dropMessages =>
      cases server <;> cases cut <;> simp [Link.step, Link.dropMessages] at hstep
      subst hstep
      exact ⟨rfl, rfl⟩
  | dropReplies =>
      cases server <;> cases lost <;> simp [Link.step, Link.dropReplies] at hstep
      subst hstep
      exact ⟨rfl, rfl⟩

theorem Resting.server_step {bus : Option σ} {l next : Link σ} (h : Resting bus l)
    {action : Action} (haction : action.OfServer) (hstep : l.step action = some next) :
    Resting bus next := by
  cases h with
  | waiting bus client idle =>
      cases action <;>
        simp [Link.step, Link.receive, Link.serve, Link.reply, Link.dropMessages,
          Link.dropReplies, Action.OfServer] at hstep haction
  | crashed client slot cut lost idle hcut =>
      cases action with
      | send | await => exact haction.elim
      | receive | serve | reply => cases hstep
      | dropMessages =>
          cases cut <;> simp [Link.step, Link.dropMessages] at hstep
          subst hstep
          exact .crashed client none true lost idle fun _ => rfl
      | dropReplies =>
          cases lost <;> simp [Link.step, Link.dropReplies] at hstep
          subst hstep
          exact .crashed client slot cut true idle hcut

theorem Pending.server_step {bus : Option σ} {message : Message} {l next : Link σ}
    (h : Pending bus message l) {action : Action} (haction : action.OfServer)
    (hstep : l.step action = some next) : Pending bus message next := by
  cases h with
  | queued server client idle hbus =>
      cases action <;>
        simp [Link.step, Link.receive, Link.serve, Link.reply, Link.dropMessages,
          Link.dropReplies, Action.OfServer] at hstep haction
      subst hstep
      exact .serving server client idle hbus
  | serving server client idle hbus =>
      cases action <;>
        simp [Link.step, Link.receive, Link.serve, Link.reply, Link.dropMessages,
          Link.dropReplies, Action.OfServer] at hstep haction
      subst hstep hbus
      rcases served_cases server message with ⟨after, reply, hserved⟩ | hserved
      · rw [hserved]
        exact .replying after reply client idle (respond_of_replying hserved)
      · -- The crash is not seen yet: the client goes on waiting until the replies are dropped.
        rw [hserved]
        exact .cut (respond_of_crashed hserved) (.crashed client none false false idle nofun)
  | replying after reply client idle hreply =>
      cases action <;>
        simp [Link.step, Link.receive, Link.serve, Link.reply, Link.dropMessages,
          Link.dropReplies, Action.OfServer] at hstep haction
      subst hstep
      exact .replied after reply client idle hreply
  | replied after reply client idle hreply =>
      cases action <;>
        simp [Link.step, Link.receive, Link.serve, Link.reply, Link.dropMessages,
          Link.dropReplies, Action.OfServer] at hstep haction
  | cut hcut hl => exact .cut hcut (hl.server_step haction hstep)

theorem Leaving.server_step {bus : Option σ} {l next : Link σ} (h : Leaving bus l)
    {action : Action} (haction : action.OfServer) (hstep : l.step action = some next) :
    Leaving bus next := by
  cases h with
  | waiting bus gone idle =>
      cases action <;>
        simp [Link.step, Link.receive, Link.leave, Link.serve, Link.reply, Link.dropMessages,
          Link.dropReplies, Action.OfServer] at hstep haction
      subst hstep
      exact .finished bus gone idle
  | finished bus gone idle =>
      cases action <;>
        simp [Link.step, Link.receive, Link.serve, Link.reply, Link.dropMessages,
          Link.dropReplies, Action.OfServer] at hstep haction
  | crashed slot cut lost gone idle =>
      cases action with
      | send | await => exact haction.elim
      | receive | serve | reply => cases hstep
      | dropMessages =>
          cases cut <;> simp [Link.step, Link.dropMessages] at hstep
          subst hstep
          exact .crashed none true lost gone idle
      | dropReplies =>
          cases lost <;> simp [Link.step, Link.dropReplies] at hstep
          subst hstep
          exact .crashed slot cut true gone idle

/-! ## Steps of the client -/

theorem Resting.send {bus : Option σ} {l next : Link σ} (h : Resting bus l) {message : Message}
    (hclient : l.client = .sending message) (hstep : l.step .send = some next) :
    next.idleCycles = l.idleCycles ∧
      (next.client = .awaiting message ∧ Pending bus message next ∨
        next.client = .answered message (respond bus message).1 ∧
          Resting (respond bus message).2 next) := by
  cases h with
  | waiting bus client idle =>
      cases hclient
      simp [Link.step, Link.send] at hstep
      subst hstep
      exact ⟨rfl, .inl ⟨rfl, .queued bus _ idle rfl⟩⟩
  | crashed client slot cut lost idle hcut =>
      cases hclient
      cases cut with
      | false =>
          cases slot <;> simp [Link.step, Link.send] at hstep
          subst hstep
          exact ⟨rfl, .inl ⟨rfl, .cut rfl (.crashed _ (some message) false lost idle nofun)⟩⟩
      | true =>
          -- Sending fails at once, which is what the remote bus answers too.
          simp [Link.step, Link.send] at hstep
          subst hstep
          exact ⟨rfl, .inr ⟨rfl, .crashed _ slot true lost idle hcut⟩⟩

theorem Pending.await {bus : Option σ} {message : Message} {l next : Link σ}
    (h : Pending bus message l) (hclient : l.client = .awaiting message)
    (hstep : l.step .await = some next) :
    next.idleCycles = l.idleCycles ∧
      next.client = .answered message (respond bus message).1 ∧
        Resting (respond bus message).2 next := by
  cases h with
  | queued | serving | replying =>
      cases hclient
      simp [Link.step, Link.await] at hstep
  | replied after reply client idle hreply =>
      cases hclient
      simp [Link.step, Link.await] at hstep
      subst hstep
      rw [hreply]
      exact ⟨rfl, rfl, .waiting after _ idle⟩
  | cut hcut hl =>
      cases hl with
      | crashed client slot cut lost idle hslot =>
          cases hclient
          cases lost <;> simp [Link.step, Link.await] at hstep
          subst hstep
          rw [hcut]
          exact ⟨rfl, rfl, .crashed _ slot cut true idle hslot⟩

theorem step_send_eq_none {l : Link σ} (h : ∀ message, l.client ≠ .sending message) :
    l.step .send = none := by
  cases hclient : l.client with
  | sending message => exact absurd hclient (h message)
  | ready | awaiting | answered | closed => simp [Link.step, Link.send, hclient]

theorem step_await_eq_none {l : Link σ} (h : ∀ message, l.client ≠ .awaiting message) :
    l.step .await = none := by
  cases hclient : l.client with
  | awaiting message => exact absurd hclient (h message)
  | ready | sending | answered | closed => simp [Link.step, Link.await, hclient]

end Link

/-! ## Steps of the session -/

namespace Session

open Link Remote

variable [Bus σ]

inductive Stage (r : Remote σ) : List BusCall → Session σ → Prop
  | ready {todo : List BusCall} {answers : List BusAnswer} {l : Link σ}
      (hclient : l.client = .ready) (hidle : l.idleCycles = r.idleCycles)
      (hl : Resting r.bus l) : Stage r todo ⟨todo, answers, l⟩
  | sending (message : Message) {todo : List BusCall} {answers : List BusAnswer} {l : Link σ}
      (hclient : l.client = .sending message) (hidle : l.idleCycles = r.idleCycles)
      (hl : Resting r.bus l) : Stage r (message.call :: todo) ⟨todo, answers, l⟩
  | awaiting (message : Message) {todo : List BusCall} {answers : List BusAnswer} {l : Link σ}
      (hclient : l.client = .awaiting message) (hidle : l.idleCycles = r.idleCycles)
      (hl : Pending r.bus message l) : Stage r (message.call :: todo) ⟨todo, answers, l⟩
  | answered (message : Message) {todo : List BusCall} {answers : List BusAnswer} {l : Link σ}
      (hclient : l.client = .answered message (respond r.bus message).1)
      (hidle : l.idleCycles = r.idleCycles) (hl : Resting (respond r.bus message).2 l) :
      Stage r (message.call :: todo) ⟨todo, answers, l⟩
  | closed {answers : List BusAnswer} {l : Link σ} (hidle : l.idleCycles = r.idleCycles)
      (hl : Leaving r.bus l) : Stage r [] ⟨[], answers, l⟩

namespace Stage

variable {r : Remote σ} {rest : List BusCall} {s next : Session σ}

theorem server_step (h : Stage r rest s) {action : Link.Action} (haction : action.OfServer)
    {l : Link σ} (hstep : s.link.step action = some l) : Stage r rest { s with link := l } := by
  obtain ⟨hkeep, hkeepIdle⟩ := server_step_keeps haction hstep
  cases h with
  | ready hclient hidle hl =>
      exact .ready (hkeep.trans hclient) (hkeepIdle.trans hidle) (hl.server_step haction hstep)
  | sending message hclient hidle hl =>
      exact .sending message (hkeep.trans hclient) (hkeepIdle.trans hidle)
        (hl.server_step haction hstep)
  | awaiting message hclient hidle hl =>
      exact .awaiting message (hkeep.trans hclient) (hkeepIdle.trans hidle)
        (hl.server_step haction hstep)
  | answered message hclient hidle hl =>
      exact .answered message (hkeep.trans hclient) (hkeepIdle.trans hidle)
        (hl.server_step haction hstep)
  | closed hidle hl => exact .closed (hkeepIdle.trans hidle) (hl.server_step haction hstep)

theorem send (h : Stage r rest s) {l : Link σ} (hstep : s.link.step .send = some l) :
    Stage r rest { s with link := l } := by
  cases h with
  | sending message hclient hidle hl =>
      obtain ⟨hkeep, ⟨hnext, hpending⟩ | ⟨hnext, hresting⟩⟩ := hl.send hclient hstep
      · exact .awaiting message hnext (hkeep.trans hidle) hpending
      · exact .answered message hnext (hkeep.trans hidle) hresting
  | ready hclient | awaiting _ hclient | answered _ hclient =>
      rw [Link.step_send_eq_none (by simp [hclient])] at hstep
      cases hstep
  | closed hidle hl =>
      rw [Link.step_send_eq_none (by simp [hl.client_eq])] at hstep
      cases hstep

theorem await (h : Stage r rest s) {l : Link σ} (hstep : s.link.step .await = some l) :
    Stage r rest { s with link := l } := by
  cases h with
  | awaiting message hclient hidle hl =>
      obtain ⟨hkeep, hnext, hresting⟩ := hl.await hclient hstep
      exact .answered message hnext (hkeep.trans hidle) hresting
  | ready hclient | sending _ hclient | answered _ hclient =>
      rw [Link.step_await_eq_none (by simp [hclient])] at hstep
      cases hstep
  | closed hidle hl =>
      rw [Link.step_await_eq_none (by simp [hl.client_eq])] at hstep
      cases hstep

inductive Moved (r : Remote σ) (rest : List BusCall) (s next : Session σ) : Prop
  | within (hanswers : next.answers = s.answers) (hnext : Stage r rest next)
  | past (call : BusCall) (later : List BusCall) (hrest : rest = call :: later)
      (hanswers : next.answers = s.answers ++ [(Bus.perform r call).1])
      (hnext : Stage (Bus.perform r call).2 later next)

theorem call (h : Stage r rest s) (hstep : s.step .call = some next) : Moved r rest s next := by
  cases h with
  | ready hclient hidle hl =>
      cases rest with
      | nil => simp [Session.step, Session.call, hclient] at hstep
      | cons call todo =>
          cases call with
          | write addr data =>
              simp [Session.step, Session.call, hclient] at hstep
              subst hstep
              exact .within rfl (.sending (.write addr data) rfl hidle (hl.reset _ _))
          | read addr =>
              simp [Session.step, Session.call, hclient] at hstep
              subst hstep
              exact .within rfl (.sending (.read addr) rfl hidle (hl.reset _ _))
          | idle cycles =>
              simp [Session.step, Session.call, hclient] at hstep
              subst hstep
              have hcounted := congrArg (Size.saturatingAdd · cycles) hidle
              exact .past (.idle cycles) todo rfl rfl (.ready rfl hcounted (hl.reset _ _))
  | sending _ hclient | awaiting _ hclient | answered _ hclient =>
      simp [Session.step, Session.call, hclient] at hstep
  | closed hidle hl => simp [Session.step, Session.call, hl.client_eq] at hstep

theorem finish (h : Stage r rest s) (hstep : s.step .finish = some next) :
    Moved r rest s next := by
  cases h with
  | answered message hclient hidle hl =>
      simp [Session.step, Session.finish, hclient] at hstep
      subst hstep
      have hperform := perform_message r message
      refine .past message.call _ rfl ?_ ?_
      · rw [hperform]
      · rw [hperform]
        exact .ready rfl hidle (hl.reset _ _)
  | ready hclient | sending _ hclient | awaiting _ hclient =>
      simp [Session.step, Session.finish, hclient] at hstep
  | closed hidle hl => simp [Session.step, Session.finish, hl.client_eq] at hstep

theorem dropSender (h : Stage r rest s) (hstep : s.step .dropSender = some next) :
    Moved r rest s next := by
  cases h with
  | ready hclient hidle hl =>
      cases rest with
      | cons call todo => simp [Session.step, Session.dropSender, hclient] at hstep
      | nil =>
          simp [Session.step, Session.dropSender, hclient] at hstep
          subst hstep
          exact .within rfl (.closed hidle hl.leaving)
  | sending _ hclient | awaiting _ hclient | answered _ hclient =>
      simp [Session.step, Session.dropSender, hclient] at hstep
  | closed hidle hl => simp [Session.step, Session.dropSender, hl.client_eq] at hstep

theorem dropReceiver (h : Stage r rest s) (hstep : s.step .dropReceiver = some next) :
    Moved r rest s next := by
  cases h with
  | ready hclient | sending _ hclient | awaiting _ hclient | answered _ hclient =>
      simp [Session.step, Session.dropReceiver, hclient] at hstep
  | closed hidle hl =>
      simp [Session.step, Session.dropReceiver, hl.client_eq] at hstep
      obtain ⟨-, rfl⟩ := hstep
      exact .within rfl (.closed hidle hl.dropReceiver)

theorem step (h : Stage r rest s) {action : Session.Action} (hstep : s.step action = some next) :
    Moved r rest s next := by
  cases action with
  | call => exact h.call hstep
  | finish => exact h.finish hstep
  | dropSender => exact h.dropSender hstep
  | dropReceiver => exact h.dropReceiver hstep
  | link action =>
      obtain ⟨l, hl, rfl⟩ := Option.map_eq_some_iff.mp hstep
      cases action with
      | send => exact .within rfl (h.send hl)
      | await => exact .within rfl (h.await hl)
      | receive | serve | reply | dropMessages | dropReplies =>
          exact .within rfl (h.server_step (by trivial) hl)

end Stage

end Session

end BankedStore
