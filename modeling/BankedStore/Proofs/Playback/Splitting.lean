import BankedStore.Bus.Canned
import BankedStore.Playback
import BankedStore.Size.Lemmas

/-!
# A playback in two parts

A list may be played in two parts, the second without a warm-up and only if the first
came to its end: neither the bus nor the counts show where it was split.  What a list
counts on top of a report is that report plus what the list counts from nothing, also
where idle cycles stop at the largest count.

A player never looks at line numbers.  Other ones change the line that a mismatch
names, and nothing else.
-/

namespace BankedStore

/-! ## Sums of reports -/

namespace Report

def add (first second : Report) : Report where
  writes := first.writes + second.writes
  reads := first.reads + second.reads
  idleCycles := Size.saturatingAdd first.idleCycles second.idleCycles

theorem add_empty (r : Report) : r.add {} = r := by
  simp [add, Size.saturatingAdd_zero]

end Report

namespace Player

variable {σ : Type} [Bus σ]

/-! ## Counting from nothing -/

theorem pause_add (base report : Report) (cycles : UInt64) (bus : σ) :
    pause cycles (base.add report) bus =
      (base.add (pause cycles report bus).1, (pause cycles report bus).2) := by
  unfold pause
  split
  · rfl
  · simp [Report.add, Size.saturatingAdd_assoc]

theorem issue_add (base report : Report) (c : Command) (bus : σ) :
    issue c (base.add report) bus =
      ((issue c report bus).1.map base.add, (issue c report bus).2) := by
  unfold issue
  cases c.request with
  | write addr data =>
      dsimp only
      rcases Bus.write bus addr data with ⟨_ | _, next⟩ <;> rfl
  | read addr expected =>
      dsimp only
      rcases Bus.read bus addr with ⟨_ | actual, next⟩
      · rfl
      · dsimp only
        split <;> rfl

theorem playFrom_add (base report : Report) (commands : List Command) (bus : σ) :
    playFrom (base.add report) bus commands =
      ((playFrom report bus commands).1.map base.add, (playFrom report bus commands).2) := by
  induction commands generalizing report bus with
  | nil => rfl
  | cons c commands ih =>
      simp only [playFrom, pause_add, issue_add]
      rcases issue c (pause c.delay report bus).1 (pause c.delay report bus).2 with
        ⟨e | counted, next⟩
      · rfl
      · exact ih counted next

/-! ## Two parts -/

theorem playFrom_split (report : Report) (bus : σ) (first second : List Command) :
    playFrom report bus (first ++ second) =
      match playFrom report bus first with
      | (.ok counted, next) => playFrom counted next second
      | (.error e, next) => (.error e, next) := by
  induction first generalizing report bus with
  | nil => rfl
  | cons c first ih =>
      simp only [List.cons_append, playFrom]
      rcases issue c (pause c.delay report bus).1 (pause c.delay report bus).2 with
        ⟨e | counted, next⟩
      · rfl
      · exact ih counted next

def playBoth (first second : Player) (bus : σ) : Except (Failure PlayError) Report × σ :=
  match first.play bus with
  | (.error e, next) => (.error e, next)
  | (.ok report, next) =>
      match second.play next with
      | (.error e, last) => (.error e, last)
      | (.ok more, last) => (.ok (report.add more), last)

theorem play_without_warmup (commands : List Command) (bus : σ) :
    play ⟨commands, 0⟩ bus = playFrom {} bus commands := rfl

theorem play_append (first second : List Command) (warmup : UInt64) (bus : σ) :
    play ⟨first ++ second, warmup⟩ bus = playBoth ⟨first, warmup⟩ ⟨second, 0⟩ bus := by
  have hsplit : play ⟨first ++ second, warmup⟩ bus =
      match play ⟨first, warmup⟩ bus with
      | (.ok counted, next) => playFrom counted next second
      | (.error e, next) => (.error e, next) := playFrom_split ..
  rw [hsplit, playBoth]
  rcases play ⟨first, warmup⟩ bus with ⟨e | report, next⟩
  · rfl
  · have hrest := playFrom_add report {} second next
    rw [Report.add_empty] at hrest
    dsimp only
    rw [hrest, play_without_warmup]
    rcases playFrom {} next second with ⟨e | more, last⟩ <;> rfl

/-! ## Other line numbers -/

def renumbered (commands : List (Command × Nat)) : List Command :=
  commands.map fun (c, line) => { c with line }

/-- How a playback ends with the lines of the commands, and how with the lines beside them: only a
mismatch tells the two apart, by the line of the read that found it. -/
inductive SameButLine (commands : List (Command × Nat)) :
    Except (Failure PlayError) Report → Except (Failure PlayError) Report → Prop
  | ended (report : Report) : SameButLine commands (.ok report) (.ok report)
  | faulted (cause : Fault) :
      SameButLine commands (.error (.fault cause)) (.error (.fault cause))
  | refused (cause : BusError) :
      SameButLine commands (.error (.refused (.bus cause))) (.error (.refused (.bus cause)))
  | mismatch {c : Command} {line : Nat} {addr expected : UInt64} (actual : UInt64)
      (hmem : (c, line) ∈ commands) (hrequest : c.request = .read addr expected) :
      SameButLine commands (.error (.refused (.mismatch c.line addr expected actual)))
        (.error (.refused (.mismatch line addr expected actual)))

theorem SameButLine.mono {fewer commands : List (Command × Nat)}
    {first second : Except (Failure PlayError) Report} (h : SameButLine fewer first second)
    (hsub : fewer ⊆ commands) : SameButLine commands first second := by
  cases h with
  | ended report => exact .ended report
  | faulted cause => exact .faulted cause
  | refused cause => exact .refused cause
  | mismatch actual hmem hrequest => exact .mismatch actual (hsub hmem) hrequest

theorem sameButLine_of_bus_error (commands : List (Command × Nat)) (e : Failure BusError) :
    SameButLine commands (.error (e.map .bus)) (.error (e.map .bus)) := by
  cases e with
  | fault cause => exact .faulted cause
  | refused cause => exact .refused cause

theorem issue_renumbered (c : Command) (line : Nat) (report : Report) (bus : σ) :
    (issue { c with line } report bus).2 = (issue c report bus).2 ∧
      SameButLine [(c, line)] (issue c report bus).1 (issue { c with line } report bus).1 := by
  unfold issue
  cases hrequest : c.request with
  | write addr data =>
      dsimp only
      rcases Bus.write bus addr data with ⟨e | _, next⟩
      · exact ⟨rfl, sameButLine_of_bus_error _ e⟩
      · exact ⟨rfl, .ended _⟩
  | read addr expected =>
      dsimp only
      rcases Bus.read bus addr with ⟨e | actual, next⟩
      · exact ⟨rfl, sameButLine_of_bus_error _ e⟩
      · dsimp only
        split
        · exact ⟨rfl, .ended _⟩
        · exact ⟨rfl, .mismatch actual (List.mem_singleton.mpr rfl) hrequest⟩

theorem playFrom_renumbered (commands : List (Command × Nat)) (report : Report) (bus : σ) :
    (playFrom report bus (renumbered commands)).2 =
        (playFrom report bus (commands.map Prod.fst)).2 ∧
      SameButLine commands (playFrom report bus (commands.map Prod.fst)).1
        (playFrom report bus (renumbered commands)).1 := by
  induction commands generalizing report bus with
  | nil => exact ⟨rfl, .ended report⟩
  | cons numbered commands ih =>
      obtain ⟨c, line⟩ := numbered
      simp only [renumbered, List.map_cons, playFrom]
      generalize pause c.delay report bus = paused
      obtain ⟨waited, waiting⟩ := paused
      obtain ⟨hbus, hissue⟩ := issue_renumbered c line waited waiting
      dsimp only
      generalize issue { c with line } waited waiting = changed at hbus hissue ⊢
      generalize issue c waited waiting = issued at hbus hissue ⊢
      obtain ⟨outcome, next⟩ := issued
      obtain ⟨outcome', _⟩ := changed
      cases hbus
      cases hissue with
      | ended counted =>
          obtain ⟨hlast, hrest⟩ := ih counted next
          exact ⟨hlast, hrest.mono (List.subset_cons_self ..)⟩
      | faulted cause => exact ⟨rfl, .faulted cause⟩
      | refused cause => exact ⟨rfl, .refused cause⟩
      | mismatch actual hmem hrequest =>
          refine ⟨rfl, .mismatch actual ?_ hrequest⟩
          exact List.mem_cons.mpr (.inl (List.mem_singleton.mp hmem))

/-- On any bus the two parts of a list, played one after the other, do what the whole list does,
and their reports add up to its report.  With other line numbers the bus ends in the same state,
and only a mismatch shows them. -/
theorem play_compositional (σ : Type) [Bus σ] (bus : σ) (warmup : UInt64) :
    (∀ first second : List Command,
      play ⟨first ++ second, warmup⟩ bus = playBoth ⟨first, warmup⟩ ⟨second, 0⟩ bus) ∧
    ∀ commands : List (Command × Nat),
      (play ⟨renumbered commands, warmup⟩ bus).2 =
          (play ⟨commands.map Prod.fst, warmup⟩ bus).2 ∧
        SameButLine commands (play ⟨commands.map Prod.fst, warmup⟩ bus).1
          (play ⟨renumbered commands, warmup⟩ bus).1 :=
  ⟨fun first second => play_append first second warmup bus,
    fun commands => playFrom_renumbered commands _ _⟩

/-- The first part already waits for as long as can be counted. -/
example : (playBoth ⟨[⟨0xFFFFFFFFFFFFFFFF, .write 0 1, 1⟩], 20⟩ ⟨[⟨5, .read 0 7, 2⟩], 0⟩
    (⟨[7], 0⟩ : CannedBus)).1 = .ok ⟨1, 1, 0xFFFFFFFFFFFFFFFF⟩ :=
  rfl

end Player

end BankedStore
