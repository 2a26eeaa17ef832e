import Mathlib.Data.List.Induction
import BankedStore.Playback
import BankedStore.Proofs.Bus.FlatArray

/-!
# Playback as a checker

Whether a command is in order depends on the commands before it only: its word
must exist, and a read must expect what the latest write to the word left there,
or what was stored before playback.  Playback on a memory accepts a list exactly
when all its commands are in order, and otherwise stops at the first that is not,
with the writes before it done.
-/

namespace BankedStore

def latestWrite (map : AddressMap) (commands : List Command) (word : Nat) : Option UInt64 :=
  commands.reverse.findSome? fun c =>
    match c.request with
    | .write addr data => if map.word addr = word then some data else none
    | .read _ _ => none

theorem latestWrite_append (map : AddressMap) (first second : List Command) (word : Nat) :
    latestWrite map (first ++ second) word =
      (latestWrite map second word).or (latestWrite map first word) := by
  rw [latestWrite, List.reverse_append, List.findSome?_append]
  rfl

theorem latestWrite_append_singleton (map : AddressMap) (commands : List Command) (c : Command)
    (word : Nat) :
    latestWrite map (commands ++ [c]) word =
      match c.request with
      | .write addr data =>
          if map.word addr = word then some data else latestWrite map commands word
      | .read _ _ => latestWrite map commands word := by
  rw [latestWrite_append]
  cases hrequest : c.request with
  | write addr data => by_cases h : map.word addr = word <;> simp [latestWrite, hrequest, h]
  | read addr expected => simp [latestWrite, hrequest]

namespace Memory

variable {t : ElementType}

def play (map : AddressMap) (m : Memory t) (c : Command) : Memory t :=
  match c.request with
  | .write addr data => m.put (map.locate (map.word addr)) (MemoryBus.stored t data)
  | .read _ _ => m

def playAll (map : AddressMap) (m : Memory t) (commands : List Command) : Memory t :=
  commands.foldl (play map) m

theorem playAll_append_singleton (map : AddressMap) (m : Memory t) (commands : List Command)
    (c : Command) : m.playAll map (commands ++ [c]) = (m.playAll map commands).play map c := by
  simp [playAll]

/-- What a read must find once some commands have been played. -/
def found (m : Memory t) (map : AddressMap) (earlier : List Command) (addr : UInt64) : UInt64 :=
  match latestWrite map earlier (map.word addr) with
  | some data => UInt64.ofNat (data.toNat % 2 ^ t.width)
  | none => (m.wordAt (map.locate (map.word addr))).toUInt64

def offence (m : Memory t) (map : AddressMap) (earlier : List Command) (c : Command) :
    Option PlayError :=
  if map.word c.request.addr < map.words then
    match c.request with
    | .write _ _ => none
    | .read addr expected =>
        if m.found map earlier addr = expected then none
        else some (.mismatch c.line addr expected (m.found map earlier addr))
  else some (.bus (map.refusal c.request.addr))

def Clean (m : Memory t) (map : AddressMap) (commands : List Command) : Prop :=
  ∀ earlier c later, commands = earlier ++ c :: later → m.offence map earlier c = none

theorem clean_nil (m : Memory t) (map : AddressMap) : m.Clean map [] := by
  intro earlier c later h
  simp at h

theorem clean_append_singleton {m : Memory t} {map : AddressMap} {commands : List Command}
    {c : Command} :
    m.Clean map (commands ++ [c]) ↔ m.Clean map commands ∧ m.offence map commands c = none := by
  constructor
  · intro h
    refine ⟨?_, h commands c [] rfl⟩
    rintro earlier c' later rfl
    exact h earlier c' (later ++ [c]) (by simp)
  · rintro ⟨hclean, hlast⟩ earlier c' later hsplit
    rcases List.eq_nil_or_concat later with rfl | ⟨later, last, rfl⟩
    · obtain ⟨rfl, hc⟩ := List.append_inj' hsplit rfl
      cases hc
      exact hlast
    · rw [List.concat_eq_append, ← List.cons_append, ← List.append_assoc] at hsplit
      exact hclean earlier c' later (List.append_inj' hsplit rfl).1

theorem Clean.in_range {m : Memory t} {map : AddressMap} {commands : List Command}
    (h : m.Clean map commands) {c : Command} (hc : c ∈ commands) :
    map.word c.request.addr < map.words := by
  obtain ⟨earlier, later, hsplit⟩ := List.append_of_mem hc
  have hoffence := h earlier c later hsplit
  by_contra hword
  rw [offence, if_neg hword] at hoffence
  cases hoffence

/-! ## The memory after commands that are in order -/

theorem playAll_keeps {m : Memory t} (h : m.Sound) (map : AddressMap) (commands : List Command) :
    (m.playAll map commands).Sound ∧ (m.playAll map commands).geometry = m.geometry := by
  induction commands using List.reverseRecOn with
  | nil => exact ⟨h, rfl⟩
  | append_singleton commands c ih =>
      obtain ⟨hsound, hgeometry⟩ := ih
      rw [playAll_append_singleton, play]
      cases c.request with
      | write addr data => exact ⟨hsound.put _ _, (geometry_put hsound _ _).trans hgeometry⟩
      | read addr expected => exact ⟨hsound, hgeometry⟩

theorem wordAt_playAll {m : Memory t} (h : m.Sound) {map : AddressMap}
    (hmap : map.Within m.geometry) {commands : List Command}
    (hwords : ∀ c ∈ commands, map.word c.request.addr < map.words) {w : Nat}
    (hw : w < map.words) :
    (m.playAll map commands).wordAt (map.locate w) =
      match latestWrite map commands w with
      | some data => MemoryBus.stored t data
      | none => m.wordAt (map.locate w) := by
  induction commands using List.reverseRecOn with
  | nil => rfl
  | append_singleton commands c ih =>
      obtain ⟨hsound, hgeometry⟩ := playAll_keeps h map commands
      have hearlier := ih fun c' hc' => hwords c' (List.mem_append_left _ hc')
      have hlast := hwords c (by simp)
      rw [playAll_append_singleton, latestWrite_append_singleton, play]
      cases hrequest : c.request with
      | read addr expected => exact hearlier
      | write addr data =>
          rw [hrequest] at hlast
          dsimp only
          rw [wordAt_put hsound (by rw [hgeometry]; exact hmap.contains (hmap.covers_locate hlast))
            rfl (MemoryBus.wellFormed_stored t data)
            (by rw [hgeometry]; exact hmap.contains (hmap.covers_locate hw))]
          by_cases hsame : map.word addr = w
          · rw [if_pos (congrArg _ hsame.symm), if_pos hsame]
          · rw [if_neg fun heq => hsame (AddressMap.locate_inj.mp heq).symm, if_neg hsame]
            exact hearlier

theorem toUInt64_wordAt_playAll {m : Memory t} (h : m.Sound) {map : AddressMap}
    (hmap : map.Within m.geometry) {commands : List Command}
    (hwords : ∀ c ∈ commands, map.word c.request.addr < map.words) {addr : UInt64}
    (haddr : map.word addr < map.words) :
    ((m.playAll map commands).wordAt (map.locate (map.word addr))).toUInt64 =
      m.found map commands addr := by
  rw [wordAt_playAll h hmap hwords haddr, found]
  cases latestWrite map commands (map.word addr) with
  | none => rfl
  | some data =>
      apply UInt64.toNat_inj.mp
      dsimp only
      rw [Bits.toNat_toUInt64, MemoryBus.toNat_stored]
      rfl

end Memory

namespace Player

variable {t : ElementType} {m : Memory t} {map : AddressMap}

structure Played (m : Memory t) (map : AddressMap) (earlier : List Command) (b : MemoryBus t) :
    Prop where
  clean : m.Clean map earlier
  bus : ∃ idleCycles, b = ⟨m.playAll map earlier, map, idleCycles⟩

theorem Played.write_eq {earlier : List Command} {b : MemoryBus t} (h : Played m map earlier b)
    (hm : m.Sound) (hmap : map.Within m.geometry) (addr data : UInt64) :
    Bus.write b addr data =
      if map.word addr < map.words then
        (.ok (), { b with
          memory := b.memory.put (map.locate (map.word addr)) (MemoryBus.stored t data) })
      else (.error (.refused (map.refusal addr)), b) := by
  obtain ⟨idleCycles, rfl⟩ := h.bus
  obtain ⟨hsound, hgeometry⟩ := Memory.playAll_keeps hm map earlier
  exact MemoryBus.write_eq hsound (by rw [hgeometry]; exact hmap) addr data

theorem Played.read_eq {earlier : List Command} {b : MemoryBus t} (h : Played m map earlier b)
    (hm : m.Sound) (hmap : map.Within m.geometry) (addr : UInt64) :
    Bus.read b addr =
      (if map.word addr < map.words then .ok (m.found map earlier addr)
      else .error (.refused (map.refusal addr)), b) := by
  obtain ⟨idleCycles, rfl⟩ := h.bus
  obtain ⟨hsound, hgeometry⟩ := Memory.playAll_keeps hm map earlier
  rw [MemoryBus.read_eq hsound (by rw [hgeometry]; exact hmap)]
  by_cases hword : map.word addr < map.words
  · rw [if_pos hword, if_pos hword,
      Memory.toUInt64_wordAt_playAll hm hmap (fun c hc => h.clean.in_range hc) hword]
  · rw [if_neg hword, if_neg hword]

theorem Played.pause {earlier : List Command} {b : MemoryBus t} (h : Played m map earlier b)
    (cycles : UInt64) (report : Report) :
    Played m map earlier (Player.pause cycles report b).2 := by
  unfold Player.pause
  split
  · exact h
  · obtain ⟨idleCycles, rfl⟩ := h.bus
    exact ⟨h.clean, _, rfl⟩

theorem issue_in_order (hm : m.Sound) (hmap : map.Within m.geometry) {earlier : List Command}
    {b : MemoryBus t} (h : Played m map earlier b) {c : Command}
    (hc : m.offence map earlier c = none) (report : Report) :
    ∃ counted next, issue c report b = (.ok counted, next) ∧
      Played m map (earlier ++ [c]) next := by
  have hclean := Memory.clean_append_singleton.mpr ⟨h.clean, hc⟩
  have hword := hclean.in_range (c := c) (by simp)
  obtain ⟨idleCycles, hbus⟩ := h.bus
  rw [issue]
  unfold Memory.offence at hc
  cases hrequest : c.request with
  | write addr data =>
      rw [hrequest, Request.addr] at hword
      dsimp only
      rw [h.write_eq hm hmap, if_pos hword]
      refine ⟨_, _, rfl, hclean, idleCycles, ?_⟩
      rw [Memory.playAll_append_singleton, Memory.play, hrequest, hbus]
  | read addr expected =>
      rw [if_pos hword, hrequest] at hc
      rw [hrequest, Request.addr] at hword
      dsimp only at hc ⊢
      rw [h.read_eq hm hmap, if_pos hword]
      dsimp only
      by_cases hfound : m.found map earlier addr = expected
      · rw [if_pos hfound]
        refine ⟨_, _, rfl, hclean, idleCycles, ?_⟩
        rw [Memory.playAll_append_singleton, Memory.play, hrequest, hbus]
      · rw [if_neg hfound] at hc
        cases hc

theorem issue_out_of_order (hm : m.Sound) (hmap : map.Within m.geometry) {earlier : List Command}
    {b : MemoryBus t} (h : Played m map earlier b) {c : Command} {e : PlayError}
    (hc : m.offence map earlier c = some e) (report : Report) :
    issue c report b = (.error (.refused e), b) := by
  rw [issue]
  unfold Memory.offence at hc
  by_cases hword : map.word c.request.addr < map.words
  · rw [if_pos hword] at hc
    cases hrequest : c.request with
    | write addr data =>
        rw [hrequest] at hc
        cases hc
    | read addr expected =>
        rw [hrequest] at hc
        rw [hrequest, Request.addr] at hword
        dsimp only at hc ⊢
        rw [h.read_eq hm hmap, if_pos hword]
        dsimp only
        by_cases hfound : m.found map earlier addr = expected
        · rw [if_pos hfound] at hc
          cases hc
        · rw [if_neg hfound] at hc ⊢
          cases hc
          rfl
  · rw [if_neg hword] at hc
    cases hc
    cases hrequest : c.request with
    | write addr data =>
        rw [hrequest, Request.addr] at hword
        dsimp only
        rw [h.write_eq hm hmap, if_neg hword]
        rfl
    | read addr expected =>
        rw [hrequest, Request.addr] at hword
        dsimp only
        rw [h.read_eq hm hmap, if_neg hword]
        rfl

/-- What playing a list ends with: all commands are in order and played, or those before the first
offender are. -/
def Ends (m : Memory t) (map : AddressMap) (commands : List Command)
    (outcome : Except (Failure PlayError) Report × MemoryBus t) : Prop :=
  (∃ report, outcome.1 = .ok report ∧ Played m map commands outcome.2) ∨
  ∃ earlier c later e, commands = earlier ++ c :: later ∧ m.offence map earlier c = some e ∧
    outcome.1 = .error (.refused e) ∧ Played m map earlier outcome.2

theorem playFrom_ends (hm : m.Sound) (hmap : map.Within m.geometry) {earlier : List Command}
    {b : MemoryBus t} (h : Played m map earlier b) (report : Report) (commands : List Command) :
    Ends m map (earlier ++ commands) (playFrom report b commands) := by
  -- What has been played grows at its end while the list shrinks at its front.
  induction commands generalizing earlier b report with
  | nil =>
      left
      rw [List.append_nil]
      exact ⟨report, rfl, h⟩
  | cons c commands ih =>
      have hpaused := h.pause c.delay report
      rw [playFrom]
      generalize hpause : pause c.delay report b = paused at hpaused
      obtain ⟨counted, waiting⟩ := paused
      dsimp only at hpaused ⊢
      cases hc : m.offence map earlier c with
      | none =>
          obtain ⟨counted', next, hissue, hnext⟩ := issue_in_order hm hmap hpaused hc counted
          rw [hissue]
          have hrest := ih hnext counted'
          rw [List.append_assoc] at hrest
          exact hrest
      | some e =>
          right
          rw [issue_out_of_order hm hmap hpaused hc counted]
          exact ⟨earlier, c, commands, e, rfl, hc, rfl, hpaused⟩

theorem play_ends (hm : m.Sound) (hmap : map.Within m.geometry) (p : Player) :
    Ends m map p.commands (p.play (⟨m, map, 0⟩ : MemoryBus t)) := by
  have hstart : Played m map [] (⟨m, map, 0⟩ : MemoryBus t) :=
    ⟨Memory.clean_nil m map, 0, rfl⟩
  exact playFrom_ends hm hmap (hstart.pause p.warmup {}) _ p.commands

/-- On a reachable memory, playback through the memory's own map accepts a list exactly when all
its commands are in order, and then all its writes are applied.  Otherwise the error is the one of
the first offender, and exactly the writes before it are applied. -/
theorem play_isOk_iff_clean (hm : m.Reachable) (p : Player) :
    ∃ own, AddressMap.ofGeometry m.geometry = .ok own ∧
      ((∃ report, (p.play (⟨m, own, 0⟩ : MemoryBus t)).1 = .ok report) ↔
        m.Clean own p.commands) ∧
      (m.Clean own p.commands →
        (p.play (⟨m, own, 0⟩ : MemoryBus t)).2.memory = m.playAll own p.commands) ∧
      ∀ failure, (p.play (⟨m, own, 0⟩ : MemoryBus t)).1 = .error failure →
        ∃ earlier c later e, p.commands = earlier ++ c :: later ∧ m.Clean own earlier ∧
          m.offence own earlier c = some e ∧ failure = .refused e ∧
          (p.play (⟨m, own, 0⟩ : MemoryBus t)).2.memory = m.playAll own earlier := by
  have hsound := hm.sound
  obtain ⟨own, hown, -, -, hwithin⟩ := AddressMap.ofGeometry_eq_ok hsound.consistent
  refine ⟨own, hown, ?_⟩
  rcases play_ends hsound hwithin p with
    ⟨report, hok, hplayed⟩ | ⟨earlier, c, later, e, hsplit, hoffence, herror, hplayed⟩
  · obtain ⟨idleCycles, hbus⟩ := hplayed.bus
    refine ⟨⟨fun _ => hplayed.clean, fun _ => ⟨report, hok⟩⟩, fun _ => by rw [hbus], ?_⟩
    intro failure hfailure
    rw [hok] at hfailure
    cases hfailure
  · obtain ⟨idleCycles, hbus⟩ := hplayed.bus
    have hnot : ¬ m.Clean own p.commands := by
      intro hclean
      rw [hclean earlier c later hsplit] at hoffence
      cases hoffence
    refine ⟨⟨?_, fun hclean => absurd hclean hnot⟩, fun hclean => absurd hclean hnot, ?_⟩
    · rintro ⟨report, hreport⟩
      rw [herror] at hreport
      cases hreport
    · intro failure hfailure
      rw [herror] at hfailure
      cases hfailure
      exact ⟨earlier, c, later, e, hsplit, hplayed.clean, hoffence, rfl, by rw [hbus]⟩

theorem play_isOk_iff_clean_tags :
    ∃ m own, Memory.new .tag12 ⟨6, 3, 4⟩ = .ok m ∧ m.Reachable ∧
      AddressMap.ofGeometry m.geometry = .ok own ∧
      (play ⟨[⟨0, .write 3 0xABCD, 1⟩, ⟨5, .read 2 0xABCD, 2⟩], 20⟩
        (⟨m, own, 0⟩ : MemoryBus .tag12)).1 =
          .error (.refused (.mismatch 2 2 0xABCD 0xBCD)) := by
  have hvalid : (⟨6, 3, 4⟩ : Config).validate ElementType.tag12.width = .ok ⟨2, 3, 4, 12⟩ := rfl
  obtain ⟨m, hnew, -, -, hgeometry, -⟩ := Memory.new_eq_ok (t := .tag12) hvalid
    (Geometry.consistent_of_fits hvalid (by decide))
  have hm : m.Reachable := ⟨_, m, [], by decide, by decide, hnew, rfl⟩
  obtain ⟨own, hown, haccepts, -, hrejects⟩ := play_isOk_iff_clean hm
    ⟨[⟨0, .write 3 0xABCD, 1⟩, ⟨5, .read 2 0xABCD, 2⟩], 20⟩
  refine ⟨m, own, hnew, hm, hown, ?_⟩
  have hsmall : own = ⟨1, 3, 2⟩ := by
    rw [hgeometry] at hown
    cases hown
    rfl
  subst hsmall
  have hwrite : m.offence ⟨1, 3, 2⟩ [] ⟨0, .write 3 0xABCD, 1⟩ = none := rfl
  have hmismatch : m.offence ⟨1, 3, 2⟩ [⟨0, .write 3 0xABCD, 1⟩] ⟨5, .read 2 0xABCD, 2⟩ =
      some (.mismatch 2 2 0xABCD 0xBCD) := by
    simp [Memory.offence, Memory.found, latestWrite, AddressMap.word, AddressMap.words,
      Request.addr, ElementType.width]
  cases houtcome : (play ⟨[⟨0, .write 3 0xABCD, 1⟩, ⟨5, .read 2 0xABCD, 2⟩], 20⟩
      (⟨m, ⟨1, 3, 2⟩, 0⟩ : MemoryBus .tag12)).1 with
  | ok report =>
      have hclean := haccepts.mp ⟨report, houtcome⟩
      rw [hclean [⟨0, .write 3 0xABCD, 1⟩] _ [] rfl] at hmismatch
      cases hmismatch
  | error failure =>
      obtain ⟨earlier, c, later, e, hsplit, -, hoffence, rfl, -⟩ := hrejects failure houtcome
      rcases earlier with _ | ⟨first, _ | ⟨second, rest⟩⟩
      · cases hsplit
        rw [hwrite] at hoffence
        cases hoffence
      · cases hsplit
        rw [hmismatch] at hoffence
        cases hoffence
        rfl
      · simp at hsplit

end Player

end BankedStore
