import BankedStore.Bus.Basic

/-!
A bus whose other end is served by a second party.  Client and server run side by side and share
two channels, one for messages and one for replies, that hold one item each.  Sending waits while
the channel is full and fails once the receiver is gone; receiving waits while it is empty and fails
once the sender is gone.  The server serves one message after the other until the client leaves.
Where serving faults, the server crashes and drops its two channel ends in either order.

`step` says what one action of one party does, and is `none` where that action has to wait.  Every
run of the two is a sequence of such steps.  A call takes them in one fixed order, `round`.
-/

namespace BankedStore.Link

inductive Message where
  | write (addr data : UInt64)
  | read (addr : UInt64)
  deriving DecidableEq, Repr

inductive Reply where
  | written
  | data (value : UInt64)
  | refused (reason : BusError)
  deriving DecidableEq, Repr

structure Channel (α : Type) where
  slot : Option α := none
  senderGone : Bool := false
  receiverGone : Bool := false
  deriving DecidableEq, Repr

inductive Client where
  | ready
  | sending (message : Message)
  | awaiting (message : Message)
  | answered (message : Message) (answer : Except BusError Reply)
  | closed

inductive Server (σ : Type) where
  | receiving (bus : σ)
  | serving (bus : σ) (message : Message)
  | replying (bus : σ) (reply : Reply)
  | finished (bus : σ)
  | crashed

inductive Action where
  | send
  | await
  | receive
  | serve
  | reply
  | dropMessages
  | dropReplies
  deriving DecidableEq, Repr

end Link

structure Link (σ : Type) where
  client : Link.Client
  server : Link.Server σ
  messages : Link.Channel Link.Message
  replies : Link.Channel Link.Reply
  idleCycles : UInt64

namespace Link

variable {σ : Type}

def connect (bus : σ) : Link σ :=
  ⟨.ready, .receiving bus, {}, {}, 0⟩

def send (l : Link σ) : Option (Link σ) :=
  match l.client with
  | .sending message =>
      if l.messages.receiverGone then
        some { l with client := .answered message (.error .disconnected) }
      else if l.messages.slot.isNone then
        some { l with
          client := .awaiting message
          messages := { l.messages with slot := some message } }
      else none
  | _ => none

/-- A reply that is already in the channel is received even when the server is gone. -/
def await (l : Link σ) : Option (Link σ) :=
  match l.client with
  | .awaiting message =>
      match l.replies.slot with
      | some reply =>
          some { l with
            client := .answered message (.ok reply)
            replies := { l.replies with slot := none } }
      | none =>
          if l.replies.senderGone then
            some { l with client := .answered message (.error .disconnected) }
          else none
  | _ => none

def leave (l : Link σ) (bus : σ) : Link σ :=
  { l with
    server := .finished bus
    messages := { l.messages with slot := none, receiverGone := true }
    replies := { l.replies with senderGone := true } }

def receive (l : Link σ) : Option (Link σ) :=
  match l.server with
  | .receiving bus =>
      match l.messages.slot with
      | some message =>
          some { l with
            server := .serving bus message
            messages := { l.messages with slot := none } }
      | none => if l.messages.senderGone then some (l.leave bus) else none
  | _ => none

def served [Bus σ] (bus : σ) : Message → Server σ
  | .write addr data =>
      match Bus.write bus addr data with
      | (.ok (), bus) => .replying bus .written
      | (.error (.refused reason), bus) => .replying bus (.refused reason)
      | (.error (.fault _), _) => .crashed
  | .read addr =>
      match Bus.read bus addr with
      | (.ok value, bus) => .replying bus (.data value)
      | (.error (.refused reason), bus) => .replying bus (.refused reason)
      | (.error (.fault _), _) => .crashed

def serve [Bus σ] (l : Link σ) : Option (Link σ) :=
  match l.server with
  | .serving bus message => some { l with server := served bus message }
  | _ => none

def reply (l : Link σ) : Option (Link σ) :=
  match l.server with
  | .replying bus reply =>
      if l.replies.receiverGone then some (l.leave bus)
      else if l.replies.slot.isNone then
        some { l with
          server := .receiving bus
          replies := { l.replies with slot := some reply } }
      else none
  | _ => none

def dropMessages (l : Link σ) : Option (Link σ) :=
  match l.server with
  | .crashed =>
      if l.messages.receiverGone then none
      else some { l with messages := { l.messages with slot := none, receiverGone := true } }
  | _ => none

def dropReplies (l : Link σ) : Option (Link σ) :=
  match l.server with
  | .crashed =>
      if l.replies.senderGone then none
      else some { l with replies := { l.replies with senderGone := true } }
  | _ => none

def step [Bus σ] (l : Link σ) : Action → Option (Link σ)
  | .send => l.send
  | .await => l.await
  | .receive => l.receive
  | .serve => l.serve
  | .reply => l.reply
  | .dropMessages => l.dropMessages
  | .dropReplies => l.dropReplies

def schedule : List Action :=
  [.send, .receive, .serve, .reply, .dropMessages, .dropReplies, .await]

/-- Every action once, those that have to wait left out. -/
def round [Bus σ] (l : Link σ) : Link σ :=
  schedule.foldl (fun l action => (l.step action).getD l) l

/-- One message and what came of it.  A link that does not answer within a round counts as cut. -/
def call [Bus σ] (l : Link σ) (message : Message) : Except BusError Reply × Link σ :=
  let l := { l with client := .sending message }.round
  match l.client with
  | .answered _ answer => (answer, { l with client := .ready })
  | _ => (.error .disconnected, l)

def Reply.describe : Reply → String
  | written => "WriteAck"
  | data value => s!"ReadData({value})"
  | refused reason => s!"Fault({reason.message})"

def writeAnswer (addr : UInt64) : Except BusError Reply → Except BusError Unit
  | .ok .written => .ok ()
  | .ok (.refused reason) => .error reason
  | .ok other =>
      let addr := Numeral.prefixedHex addr.toNat
      .error (.protocol s!"write to {addr} answered with {other.describe}")
  | .error e => .error e

def readAnswer (addr : UInt64) : Except BusError Reply → Except BusError UInt64
  | .ok (.data value) => .ok value
  | .ok (.refused reason) => .error reason
  | .ok other =>
      let addr := Numeral.prefixedHex addr.toNat
      .error (.protocol s!"read of {addr} answered with {other.describe}")
  | .error e => .error e

instance [Bus σ] : Bus (Link σ) where
  write l addr data :=
    let (answer, l) := l.call (.write addr data)
    (Failure.ofRefusal (writeAnswer addr answer), l)
  read l addr :=
    let (answer, l) := l.call (.read addr)
    (Failure.ofRefusal (readAnswer addr answer), l)
  idle l cycles := { l with idleCycles := Size.saturatingAdd l.idleCycles cycles }

def close (l : Link σ) : Link σ :=
  { l with
    client := .closed
    messages := { l.messages with senderGone := true }
    replies := { l.replies with slot := none, receiverGone := true } }

/-- Closes the link and takes the server's bus back, unless the server has crashed. -/
def join [Bus σ] (l : Link σ) : Except BusError σ :=
  match l.close.round.server with
  | .finished bus => .ok bus
  | _ => .error .serverCrashed

end Link

end BankedStore
