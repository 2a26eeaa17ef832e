import BankedStore.Proofs.Link.Schedules

/-!
# Clients that decide as they go

A client need not have its calls listed beforehand.  Between two calls it may look at
the answers so far, and then make a call or leave.  If a list of calls always agrees
with what it decides, its session goes through the same links and answers as the
session with that list, under every schedule.
-/

namespace BankedStore

open Link

namespace Session

variable {σ : Type}

/-- The client, if it is between two calls, has decided by the answers so far. -/
def decided (next : List BusAnswer → Option BusCall) (s : Session σ) : Session σ :=
  match s.link.client with
  | .ready => { s with todo := (next s.answers).toList }
  | _ => s

def seen (s : Session σ) : List BusAnswer × Link σ :=
  (s.answers, s.link)

theorem seen_decided (next : List BusAnswer → Option BusCall) (s : Session σ) :
    (s.decided next).seen = s.seen := by
  unfold decided
  split <;> rfl

theorem todo_decided (next : List BusAnswer → Option BusCall) {s : Session σ}
    (hready : s.link.client = .ready) : (s.decided next).todo.head? = next s.answers := by
  rw [decided, hready]
  cases next s.answers <;> rfl

variable [Bus σ]

def stepBy (next : List BusAnswer → Option BusCall) (s : Session σ) (action : Action) :
    Option (Session σ) :=
  (s.decided next).step action

def runBy (next : List BusAnswer → Option BusCall) (s : Session σ) :
    List Action → Option (Session σ)
  | [] => some s
  | action :: schedule => (s.stepBy next action).bind (·.runBy next schedule)

/-- Of the calls to come a step sees only the first, and that only between two calls. -/
theorem step_seen {s u : Session σ} (hseen : s.seen = u.seen)
    (htodo : s.link.client = .ready → s.todo.head? = u.todo.head?) (action : Action) :
    (s.step action).map seen = (u.step action).map seen := by
  obtain ⟨todo, answers, l⟩ := s
  obtain ⟨todo', answers', l'⟩ := u
  cases hseen
  cases action with
  | call =>
      cases hclient : l.client with
      | ready =>
          have hhead := htodo hclient
          rcases todo with _ | ⟨c, todo⟩ <;> rcases todo' with _ | ⟨c', todo'⟩ <;> cases hhead
          · rfl
          · cases c <;> simp [step, call, hclient, seen]
      | sending | awaiting | answered | closed => simp [step, call, hclient]
  | dropSender =>
      cases hclient : l.client with
      | ready =>
          have hhead := htodo hclient
          rcases todo with _ | ⟨c, todo⟩ <;> rcases todo' with _ | ⟨c', todo'⟩ <;> cases hhead
          · rfl
          · simp [step, dropSender, hclient]
      | sending | awaiting | answered | closed => simp [step, dropSender, hclient]
  | finish => cases hclient : l.client <;> simp [step, finish, hclient, seen]
  | dropReceiver =>
      cases hclient : l.client <;> cases hgone : l.replies.receiverGone <;>
        simp [step, dropReceiver, hclient, hgone, seen]
  | link action =>
      rw [step, step, Option.map_map, Option.map_map]
      rfl

/-- After the answers that a bus gives to the first of these calls, the client decides on the one
that follows. -/
def Agrees (next : List BusAnswer → Option BusCall) (bus : σ) (calls : List BusCall) : Prop :=
  ∀ done later, calls = done ++ later → next (Bus.run bus done).1 = later.head?

variable {next : List BusAnswer → Option BusCall} {bus : σ} {calls : List BusCall}
  {s u : Session σ}

theorem Stage.todo_eq {r : Remote σ} {rest : List BusCall} (h : Stage r rest s)
    (hready : s.link.client = .ready) : s.todo = rest := by
  cases h with
  | ready | closed => rfl
  | sending _ hclient | awaiting _ hclient | answered _ hclient =>
      rw [hclient] at hready
      cases hready

theorem stepBy_seen (hnext : Agrees next (⟨some bus, 0⟩ : Remote σ) calls)
    (hu : Follows bus calls u) (hseen : s.seen = u.seen) (action : Action) :
    (s.stepBy next action).map seen = (u.step action).map seen := by
  have hdecided : (s.decided next).seen = u.seen := (seen_decided next s).trans hseen
  refine step_seen hdecided (fun hready => ?_) action
  have hlink : s.link = u.link := congrArg Prod.snd hseen
  have hanswers : s.answers = u.answers := congrArg Prod.fst hseen
  have hsame : (s.decided next).link = u.link := congrArg Prod.snd hdecided
  rw [hsame] at hready
  obtain ⟨done, later, hcalls, hdone, hstage⟩ := hu
  rw [todo_decided next (hlink ▸ hready), hstage.todo_eq hready, hanswers, hdone,
    hnext done later hcalls]

theorem runBy_seen (hnext : Agrees next (⟨some bus, 0⟩ : Remote σ) calls)
    (hu : Follows bus calls u) (hseen : s.seen = u.seen) (schedule : List Action) :
    (s.runBy next schedule).map seen = (u.run schedule).map seen := by
  induction schedule generalizing s u with
  | nil => exact congrArg some hseen
  | cons action schedule ih =>
      have hstep := stepBy_seen hnext hu hseen action
      rw [runBy, run]
      cases hs : s.stepBy next action with
      | none =>
          rw [hs] at hstep
          rw [Option.map_eq_none_iff.mp hstep.symm]
          rfl
      | some s' =>
          rw [hs] at hstep
          obtain ⟨u', hu', hseen'⟩ := Option.map_eq_some_iff.mp hstep.symm
          rw [hu']
          exact ih (hu.step hu') hseen'.symm

/-- A client that decides as it goes ends like one whose calls are listed, under every schedule. -/
theorem runBy_settles (hnext : Agrees next (⟨some bus, 0⟩ : Remote σ) calls)
    {schedule : List Action} (hrun : (start [] bus).runBy next schedule = some s) :
    s.link.inFlight ≤ 1 ∧ schedule.length ≤ 7 * calls.length + 5 ∧
      ((∀ action, s.stepBy next action = none) →
        s.answers = (Bus.run (⟨some bus, 0⟩ : Remote σ) calls).1 ∧
          Settled (Bus.run (⟨some bus, 0⟩ : Remote σ) calls).2.bus s.link) := by
  have hstart : (start [] bus).seen = (start calls bus).seen := rfl
  have hsame := runBy_seen hnext (follows_start bus calls) hstart schedule
  rw [hrun] at hsame
  obtain ⟨u, hu, hseen⟩ := Option.map_eq_some_iff.mp hsame.symm
  have hfollows := (follows_start bus calls).run hu
  have hlink : u.link = s.link := congrArg Prod.snd hseen
  have hanswers : u.answers = s.answers := congrArg Prod.fst hseen
  rw [← hlink, ← hanswers]
  refine ⟨hfollows.inFlight_le, length_le_of_run_start hu, fun hstuck => ?_⟩
  have hover := hfollows.over fun action => by
    have hstep := stepBy_seen hnext hfollows hseen.symm action
    rw [hstuck action] at hstep
    exact Option.map_eq_none_iff.mp hstep.symm
  exact ⟨hover.1, hover.2.2⟩

end Session

end BankedStore
