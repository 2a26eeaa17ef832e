import BankedStore.Bus.Link
import BankedStore.Proofs.Bus.Calls

/-!
# Sessions over a link

In a session the client makes some calls over a link, one after the other, and
then drops its two channel ends, the sending one first.  The server works at its
own pace.  A schedule says which party takes the next step; each step is one
action of the link or one of the client outside it.  What the calls come to
without any schedule is the business of the remote bus.
-/

namespace BankedStore

namespace Link

def Message.call : Message → BusCall
  | write addr data => .write addr data
  | read addr => .read addr

def Message.answer : Message → Except BusError Reply → BusAnswer
  | write addr _, answer => .written (Failure.ofRefusal (writeAnswer addr answer))
  | read addr, answer => .data (Failure.ofRefusal (readAnswer addr answer))

variable {σ : Type}

def inFlight (l : Link σ) : Nat :=
  l.messages.slot.toList.length +
    (match l.server with
      | .serving _ _ | .replying _ _ => 1
      | _ => 0) +
    l.replies.slot.toList.length

end Link

structure Session (σ : Type) where
  todo : List BusCall
  answers : List BusAnswer
  link : Link σ

namespace Session

variable {σ : Type}

inductive Action where
  | call
  | finish
  | dropSender
  | dropReceiver
  | link (action : Link.Action)

def start (calls : List BusCall) (bus : σ) : Session σ :=
  ⟨calls, [], .connect bus⟩

/-- Idle cycles are counted on the spot; any other call is a message to send. -/
def call (s : Session σ) : Option (Session σ) :=
  match s.link.client, s.todo with
  | .ready, .write addr data :: todo =>
      some { s with todo, link := { s.link with client := .sending (.write addr data) } }
  | .ready, .read addr :: todo =>
      some { s with todo, link := { s.link with client := .sending (.read addr) } }
  | .ready, .idle cycles :: todo =>
      some ⟨todo, s.answers ++ [.idled],
        { s.link with idleCycles := Size.saturatingAdd s.link.idleCycles cycles }⟩
  | _, _ => none

def finish (s : Session σ) : Option (Session σ) :=
  match s.link.client with
  | .answered message answer =>
      some { s with
        answers := s.answers ++ [message.answer answer]
        link := { s.link with client := .ready } }
  | _ => none

def dropSender (s : Session σ) : Option (Session σ) :=
  match s.link.client, s.todo with
  | .ready, [] =>
      some { s with
        link := { s.link with
          client := .closed
          messages := { s.link.messages with senderGone := true } } }
  | _, _ => none

def dropReceiver (s : Session σ) : Option (Session σ) :=
  match s.link.client with
  | .closed =>
      if s.link.replies.receiverGone then none
      else
        some { s with
          link := { s.link with
            replies := { s.link.replies with slot := none, receiverGone := true } } }
  | _ => none

variable [Bus σ]

def step (s : Session σ) : Action → Option (Session σ)
  | .call => s.call
  | .finish => s.finish
  | .dropSender => s.dropSender
  | .dropReceiver => s.dropReceiver
  | .link action => (s.link.step action).map fun link => { s with link }

/-- A schedule is not possible when one of its steps has to wait. -/
def run (s : Session σ) : List Action → Option (Session σ)
  | [] => some s
  | action :: schedule => (s.step action).bind (·.run schedule)

theorem run_append (s : Session σ) (before after : List Action) :
    s.run (before ++ after) = (s.run before).bind (·.run after) := by
  induction before generalizing s with
  | nil => rfl
  | cons action before ih =>
      rw [List.cons_append, run, run, Option.bind_assoc]
      exact congrArg _ (funext ih)

end Session

/-- A bus as it is seen over a link: there is none once serving a message has faulted. -/
structure Remote (σ : Type) where
  bus : Option σ
  idleCycles : UInt64 := 0

namespace Remote

variable {σ : Type} [Bus σ]

def respond : Option σ → Link.Message → Except BusError Link.Reply × Option σ
  | none, _ => (.error .disconnected, none)
  | some bus, message =>
      match Link.served bus message with
      | .replying bus reply => (.ok reply, some bus)
      | _ => (.error .disconnected, none)

def exchange (r : Remote σ) (message : Link.Message) : Except BusError Link.Reply × Remote σ :=
  ((respond r.bus message).1, { r with bus := (respond r.bus message).2 })

instance : Bus (Remote σ) where
  write r addr data :=
    let (answer, r) := r.exchange (.write addr data)
    (Failure.ofRefusal (Link.writeAnswer addr answer), r)
  read r addr :=
    let (answer, r) := r.exchange (.read addr)
    (Failure.ofRefusal (Link.readAnswer addr answer), r)
  idle r cycles := { r with idleCycles := Size.saturatingAdd r.idleCycles cycles }

theorem perform_message (r : Remote σ) (message : Link.Message) :
    Bus.perform r message.call =
      (message.answer (respond r.bus message).1, { r with bus := (respond r.bus message).2 }) := by
  cases message <;> rfl

theorem served_cases (bus : σ) (message : Link.Message) :
    (∃ after reply, Link.served bus message = .replying after reply) ∨
      Link.served bus message = .crashed := by
  cases message with
  | write addr data =>
      rw [Link.served]
      rcases Bus.write bus addr data with ⟨⟨⟨cause⟩ | ⟨reason⟩⟩ | done, after⟩
      · exact .inr rfl
      · exact .inl ⟨after, _, rfl⟩
      · exact .inl ⟨after, _, rfl⟩
  | read addr =>
      rw [Link.served]
      rcases Bus.read bus addr with ⟨⟨⟨cause⟩ | ⟨reason⟩⟩ | value, after⟩
      · exact .inr rfl
      · exact .inl ⟨after, _, rfl⟩
      · exact .inl ⟨after, _, rfl⟩

theorem respond_of_replying {bus after : σ} {message : Link.Message} {reply : Link.Reply}
    (h : Link.served bus message = .replying after reply) :
    respond (some bus) message = (.ok reply, some after) := by
  simp [respond, h]

theorem respond_of_crashed {bus : σ} {message : Link.Message}
    (h : Link.served bus message = .crashed) :
    respond (some bus) message = (.error .disconnected, none) := by
  simp [respond, h]

theorem perform_of_not_faulted {bus : σ} {message : Link.Message}
    (h : ¬ (Bus.perform bus message.call).1.Faulted) (idle : UInt64) :
    Bus.perform (⟨some bus, idle⟩ : Remote σ) message.call =
      ((Bus.perform bus message.call).1, ⟨some (Bus.perform bus message.call).2, idle⟩) := by
  rw [perform_message]
  cases message with
  | write addr data =>
      simp only [Link.Message.call, Bus.perform] at h ⊢
      rw [respond, Link.served]
      generalize Bus.write bus addr data = outcome at h ⊢
      rcases outcome with ⟨⟨⟨cause⟩ | ⟨reason⟩⟩ | done, after⟩
      · exact absurd trivial h
      · rfl
      · rfl
  | read addr =>
      simp only [Link.Message.call, Bus.perform] at h ⊢
      rw [respond, Link.served]
      generalize Bus.read bus addr = outcome at h ⊢
      rcases outcome with ⟨⟨⟨cause⟩ | ⟨reason⟩⟩ | value, after⟩
      · exact absurd trivial h
      · rfl
      · rfl

end Remote

end BankedStore
