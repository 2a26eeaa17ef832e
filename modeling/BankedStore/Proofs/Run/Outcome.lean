import BankedStore.Proofs.Playback.Shapes
import BankedStore.Proofs.Playback.Checker
import BankedStore.Proofs.Playback.Totals
import BankedStore.Proofs.Script.Following

/-!
# What a run comes to

A run of a script over unsigned words is told by the script alone: its first
error, else the first check that the configuration fails, else what playing the
commands comes to on words that all start as zero.  Neither the banks, nor the
link to the memory, nor how words are stored shows in it.
-/

namespace BankedStore

namespace Script

def wordNumber (w : IntWidth) (addr : UInt64) : Nat :=
  addr.toNat / (w.bits / 8)

def writesTo (w : IntWidth) (word : Nat) (commands : List Command) : List UInt64 :=
  commands.filterMap fun c =>
    match c.request with
    | .write addr data => if wordNumber w addr = word then some data else none
    | .read _ _ => none

/-- What a read finds after some commands: the low bits of the latest write to its word, or zero. -/
def held (w : IntWidth) (earlier : List Command) (addr : UInt64) : UInt64 :=
  match (writesTo w (wordNumber w addr) earlier).getLast? with
  | some data => UInt64.ofNat (data.toNat % 2 ^ w.bits)
  | none => 0

structure Clean (w : IntWidth) (entries : Nat) (commands : List Command) : Prop where
  in_range : ∀ c ∈ commands, wordNumber w c.request.addr < entries
  found : ∀ earlier c later addr expected, commands = earlier ++ c :: later →
    c.request = .read addr expected → held w earlier addr = expected

inductive Offends (w : IntWidth) (entries : Nat) (earlier : List Command) (c : Command) :
    PlayError → Prop
  | address (hword : entries ≤ wordNumber w c.request.addr) :
      Offends w entries earlier c (.bus (.addressOutOfRange c.request.addr entries))
  | mismatch {addr expected : UInt64} (hread : c.request = .read addr expected)
      (hword : wordNumber w addr < entries) (hne : held w earlier addr ≠ expected) :
      Offends w entries earlier c (.mismatch c.line addr expected (held w earlier addr))

end Script

open Script

variable {w : IntWidth} {config : Config}

/-! ## Playing on fresh words -/

namespace Memory

structure AllZero (m : Memory (.uint w)) (own : AddressMap) (entries : Nat) : Prop where
  word : ∀ addr, own.word addr = wordNumber w addr
  words : own.words = entries
  zero : ∀ n < entries, (m.wordAt (own.locate n)).toNat = 0

theorem exists_new_allZero {g : Geometry} (hvalid : config.validate w.bits = .ok g)
    (hfits : config.totalEntries * w.bits < Size.limit) :
    ∃ (m : Memory (.uint w)) (own : AddressMap), m.Sound ∧ own.Within m.geometry ∧
      m.AllZero own config.totalEntries ∧
      MemoryBus.Mirrors m own ⟨m, own, 0⟩ (.fresh (.uint w) config.totalEntries) := by
  obtain ⟨m, own, -, -, hsound, hwithin, -, hwords, hmirrors⟩ :=
    Memory.new_mirrors (t := .uint w) hvalid hfits
  refine ⟨m, own, hsound, hwithin, ⟨fun addr => ?_, hwords, fun n hn => ?_⟩, hmirrors⟩
  · have hstride : 2 ^ own.offsetBits = w.bits / 8 := by
      rw [← hmirrors.offsetBits]
      cases w <;> rfl
    rw [AddressMap.word, hstride, wordNumber]
  · have hdefault : (Value.pack (.uint w) default).toNat = 0 := by
      change (Bits.ofBitVec128 w.bits ((0#w.bits).setWidth 128)).toNat = 0
      rw [Bits.toNat_ofBitVec128, BitVec.setWidth_zero, BitVec.toNat_zero, Nat.zero_mod]
    exact (hmirrors.cells n (hwords ▸ hn)).trans hdefault

namespace AllZero

variable {m : Memory (.uint w)} {own : AddressMap} {entries : Nat}

theorem latestWrite_eq (h : m.AllZero own entries) (commands : List Command) (word : Nat) :
    latestWrite own commands word = (writesTo w word commands).getLast? := by
  rw [latestWrite, writesTo, List.getLast?_filterMap]
  refine congrArg (List.findSome? · commands.reverse) (funext fun c => ?_)
  cases c.request with
  | write addr data =>
      change (if own.word addr = word then some data else none) =
        if wordNumber w addr = word then some data else none
      rw [h.word]
  | read addr expected => rfl

theorem found_eq (h : m.AllZero own entries) (earlier : List Command) {addr : UInt64}
    (haddr : wordNumber w addr < entries) : m.found own earlier addr = held w earlier addr := by
  have hfresh : (m.wordAt (own.locate (wordNumber w addr))).toUInt64 = 0 := by
    apply UInt64.toNat_inj.mp
    rw [Bits.toNat_toUInt64, h.zero _ haddr]
    rfl
  rw [Memory.found, held, h.word, h.latestWrite_eq, hfresh]
  rfl

theorem offence_eq_none_iff (h : m.AllZero own entries) {earlier : List Command} {c : Command} :
    m.offence own earlier c = none ↔
      wordNumber w c.request.addr < entries ∧
        ∀ addr expected, c.request = .read addr expected → held w earlier addr = expected := by
  rw [offence, h.word, h.words]
  by_cases hword : wordNumber w c.request.addr < entries
  · rw [if_pos hword]
    cases hrequest : c.request with
    | write addr data => simp [hrequest ▸ hword]
    | read addr expected =>
        have haddr : wordNumber w addr < entries := by rwa [hrequest] at hword
        simp [h.found_eq earlier haddr, Request.addr, haddr]
  · simp [hword]

theorem offends_of_offence (h : m.AllZero own entries) {earlier : List Command} {c : Command}
    {e : PlayError} (he : m.offence own earlier c = some e) : Offends w entries earlier c e := by
  rw [offence, h.word, h.words] at he
  by_cases hword : wordNumber w c.request.addr < entries
  · rw [if_pos hword] at he
    cases hrequest : c.request with
    | write addr data => simp [hrequest] at he
    | read addr expected =>
        have haddr : wordNumber w addr < entries := by rwa [hrequest] at hword
        simp only [hrequest, h.found_eq earlier haddr, Option.ite_none_left_eq_some,
          Option.some.injEq] at he
        obtain ⟨hne, rfl⟩ := he
        exact .mismatch hrequest haddr hne
  · rw [if_neg hword, AddressMap.refusal, h.words] at he
    cases he
    exact .address (Nat.le_of_not_lt hword)

theorem clean_iff (h : m.AllZero own entries) {commands : List Command} :
    m.Clean own commands ↔ Script.Clean w entries commands := by
  constructor
  · intro hclean
    refine ⟨fun c hc => ?_, fun earlier c later addr expected hsplit hread => ?_⟩
    · obtain ⟨earlier, later, hsplit⟩ := List.append_of_mem hc
      exact (h.offence_eq_none_iff.mp (hclean earlier c later hsplit)).1
    · exact (h.offence_eq_none_iff.mp (hclean earlier c later hsplit)).2 addr expected hread
  · intro hclean earlier c later hsplit
    refine h.offence_eq_none_iff.mpr ⟨hclean.in_range c (by simp [hsplit]), ?_⟩
    exact fun addr expected hread => hclean.found earlier c later addr expected hsplit hread

end AllZero

end Memory

theorem Player.play_fresh_words {g : Geometry} (hvalid : config.validate w.bits = .ok g)
    (hfits : config.totalEntries * w.bits < Size.limit) (p : Player) :
    (Clean w config.totalEntries p.commands ∧
        (p.play (FlatBus.fresh (.uint w) config.totalEntries)).1 =
          .ok (.total p.warmup p.commands)) ∨
      ¬ Clean w config.totalEntries p.commands ∧
        ∃ earlier c later e, p.commands = earlier ++ c :: later ∧
          Clean w config.totalEntries earlier ∧ Offends w config.totalEntries earlier c e ∧
          (p.play (FlatBus.fresh (.uint w) config.totalEntries)).1 = .error (.refused e) := by
  obtain ⟨m, own, hsound, hwithin, hzero, hmirrors⟩ :=
    Memory.exists_new_allZero (w := w) hvalid hfits
  rw [← (play_alike (MemoryBus.simulation_mirrors hwithin) hmirrors p).1]
  rcases play_ends hsound hwithin p with
    ⟨report, hok, hplayed⟩ | ⟨earlier, c, later, e, hsplit, hoffence, herror, hplayed⟩
  · left
    rw [hok, report_of_play hok]
    exact ⟨hzero.clean_iff.mp hplayed.clean, rfl⟩
  · right
    have hearlier := hzero.clean_iff.mp hplayed.clean
    refine ⟨fun hclean => ?_,
      earlier, c, later, e, hsplit, hearlier, hzero.offends_of_offence hoffence, herror⟩
    rw [hzero.clean_iff.mpr hclean earlier c later hsplit] at hoffence
    cases hoffence

/-! ## Stages of a run -/

section Stages

variable {script : List UInt8} {warmup : UInt64} {commands : List Command}

theorem Script.transcript_of_outcomes_eq (h : outcomes script = commands.map .ok) :
    transcript script = commands.map fun c => (c.line, .ok c) := by
  have hstream : Reader.commands ⟨script, 0, 0⟩ = commands.map .ok := by
    rw [Reader.commands_eq_untilError, h]
    clear h
    induction commands with
    | nil => rfl
    | cons c commands ih => exact congrArg (Except.ok c :: ·) ih
  refine List.ext_getElem? fun n => ?_
  rw [List.getElem?_map]
  cases hc : commands[n]? with
  | some c =>
      refine Reader.entry_of_commands script ?_
      rw [hstream, List.getElem?_map, hc]
      rfl
  | none =>
      have hlength := congrArg List.length h
      rw [outcomes, List.length_map, List.length_map] at hlength
      rw [List.getElem?_eq_none_iff] at hc
      simpa [hlength] using hc

theorem runScript_of_script_error {t : ElementType} {e : ScriptError} {more : List Outcome}
    (h : outcomes script = commands.map .ok ++ .error e :: more) :
    runScript script t config warmup = .error (.refused (.script e)) := by
  have hload : loadScript script = .error e :=
    (loadScript_eq_error_iff script).mpr ⟨commands, more, h⟩
  rw [runScript, hload]
  rfl

theorem runScript_of_config_error {t : ElementType} {e : Rejection}
    (h : outcomes script = commands.map .ok) (hconfig : config.firstFailing t.width = some e) :
    runScript script t config warmup = .error (.refused (.config e)) := by
  have hload : loadScript script = .ok commands := (loadScript_eq_ok_iff script).mpr h
  have hinvalid : config.validate t.width = .error e := by
    rw [Config.validate_eq_firstFailing, hconfig]
  have hnew : Memory.new t config = .error (.refused e) := by
    rw [Memory.new, hinvalid]
    rfl
  rw [runScript, hload, hnew]
  rfl

theorem runScript_of_valid {t : ElementType} {g : Geometry}
    (h : outcomes script = commands.map .ok) (hvalid : config.validate t.width = .ok g)
    (hfits : config.totalEntries * t.width < Size.limit) :
    runScript script t config warmup =
      (Player.play ⟨commands, warmup⟩ (FlatBus.fresh t config.totalEntries)).1.mapError
        (Failure.map .playback) := by
  rw [runScript_eq_flat hvalid hfits, (loadScript_eq_ok_iff script).mpr h]
  rfl

/-- Where nothing is wrong with script and configuration, the commands decide. -/
theorem runScript_of_commands (warmup : UInt64)
    (hfits : config.totalEntries * w.bits < Size.limit)
    (h : outcomes script = commands.map .ok) (hconfig : config.firstFailing w.bits = none) :
    (Clean w config.totalEntries commands ∧
        runScript script (.uint w) config warmup = .ok (.total warmup commands)) ∨
      ¬ Clean w config.totalEntries commands ∧
        ∃ earlier c later e, commands = earlier ++ c :: later ∧
          Clean w config.totalEntries earlier ∧ Offends w config.totalEntries earlier c e ∧
          runScript script (.uint w) config warmup = .error (.refused (.playback e)) := by
  obtain ⟨g, hvalid⟩ : ∃ g, config.validate (ElementType.uint w).width = .ok g :=
    ⟨_, by rw [ElementType.width, Config.validate_eq_firstFailing, hconfig]⟩
  rw [runScript_of_valid h hvalid hfits]
  rcases Player.play_fresh_words hvalid hfits ⟨commands, warmup⟩ with
    ⟨hclean, hplay⟩ | ⟨hnot, earlier, c, later, e, hsplit, hearlier, hoffends, hplay⟩
  · exact .inl ⟨hclean, by rw [hplay]; rfl⟩
  · exact .inr ⟨hnot, earlier, c, later, e, hsplit, hearlier, hoffends, by rw [hplay]; rfl⟩

theorem runScript_settles {t : ElementType} {g : Geometry}
    (h : outcomes script = commands.map .ok) (hvalid : config.validate t.width = .ok g)
    (hfits : config.totalEntries * t.width < Size.limit) {m : Memory t} {own : AddressMap}
    (hnew : Memory.new t config = .ok m) (hown : AddressMap.ofGeometry m.geometry = .ok own) :
    ∃ result, Player.SettlesOn ⟨commands, warmup⟩ (⟨m, own, 0⟩ : MemoryBus t) result
        (fun _ => True) ∧
      runScript script t config warmup = result.mapError (Failure.map .playback) := by
  obtain ⟨m', own', hnew', hown', hsound, hwithin, -, -, -⟩ := Memory.new_mirrors hvalid hfits
  cases hnew.symm.trans hnew'
  cases hown.symm.trans hown'
  refine ⟨_, (Player.settlesOn_memory hsound hwithin _).mono fun _ _ => trivial, ?_⟩
  rw [runScript_eq_direct hnew hown hsound hwithin, (loadScript_eq_ok_iff script).mpr h]
  rfl

theorem runScript_served (script : List UInt8) (warmup : UInt64)
    (hfits : config.totalEntries * w.bits < Size.limit) :
    ∃ outcome, runScript script (.uint w) config warmup = Failure.ofRefusal outcome ∧
      ∀ cause, outcome = .error (.playback (.bus cause)) →
        ∃ addr capacity, cause = .addressOutOfRange addr capacity := by
  cases hload : loadScript script with
  | error e =>
      obtain ⟨commands, more, h⟩ := (loadScript_eq_error_iff script).mp hload
      exact ⟨.error (.script e), runScript_of_script_error h, nofun⟩
  | ok commands =>
      have h := (loadScript_eq_ok_iff script).mp hload
      cases hconfig : config.firstFailing w.bits with
      | some e => exact ⟨.error (.config e), runScript_of_config_error h hconfig, nofun⟩
      | none =>
          rcases runScript_of_commands warmup hfits h hconfig with
            ⟨-, hrun⟩ | ⟨-, _, _, _, e, -, -, hoffends, hrun⟩
          · exact ⟨.ok (.total warmup commands), hrun, nofun⟩
          · refine ⟨.error (.playback e), hrun, ?_⟩
            rintro cause ⟨⟩
            cases hoffends with
            | address => exact ⟨_, _, rfl⟩

end Stages

/-! ## The outcome -/

/-- How a run ends, told by the lines of its script, the checks of its configuration and, where
there is nothing wrong with these, the commands. -/
structure RunEnds (script : List UInt8) (w : IntWidth) (config : Config) (warmup : UInt64) :
    Prop where
  /-- The first error of the script comes before all that is wrong with the configuration. -/
  script_error {commands : List Command} {e : ScriptError} {more : List Outcome}
    (h : outcomes script = commands.map .ok ++ .error e :: more) :
    runScript script (.uint w) config warmup = .error (.refused (.script e))
  config_error {commands : List Command} {e : Rejection}
    (h : outcomes script = commands.map .ok) (he : config.firstFailing w.bits = some e) :
    runScript script (.uint w) config warmup = .error (.refused (.config e))
  /-- Commands carry the numbers of their lines in the script. -/
  lines {commands : List Command} (h : outcomes script = commands.map .ok) :
    transcript script = commands.map fun c => (c.line, .ok c)
  ok_iff {commands : List Command} {report : Report}
    (h : outcomes script = commands.map .ok) (hconfig : config.firstFailing w.bits = none) :
    runScript script (.uint w) config warmup = .ok report ↔
      Clean w config.totalEntries commands ∧ report = .total warmup commands
  first_offence {commands : List Command}
    (h : outcomes script = commands.map .ok) (hconfig : config.firstFailing w.bits = none)
    (hoffends : ¬ Clean w config.totalEntries commands) :
    ∃ earlier c later e, commands = earlier ++ c :: later ∧
      Clean w config.totalEntries earlier ∧ Offends w config.totalEntries earlier c e ∧
      runScript script (.uint w) config warmup = .error (.refused (.playback e))
  /-- The link that is played on has one schedule, and every other one comes to the same. -/
  schedules {commands : List Command} {m : Memory (.uint w)} {own : AddressMap}
    (h : outcomes script = commands.map .ok) (hnew : Memory.new (.uint w) config = .ok m)
    (hown : AddressMap.ofGeometry m.geometry = .ok own) :
    ∃ result, Player.SettlesOn ⟨commands, warmup⟩ (⟨m, own, 0⟩ : MemoryBus (.uint w)) result
        (fun _ => True) ∧
      runScript script (.uint w) config warmup = result.mapError (Failure.map .playback)
  /-- Nothing faults, and the bus refuses nothing but addresses. -/
  served : ∃ outcome, runScript script (.uint w) config warmup = Failure.ofRefusal outcome ∧
    ∀ cause, outcome = .error (.playback (.bus cause)) →
      ∃ addr capacity, cause = .addressOutOfRange addr capacity

theorem runScript_ends (script : List UInt8) (warmup : UInt64)
    (hfits : config.totalEntries * w.bits < Size.limit) : RunEnds script w config warmup where
  script_error := runScript_of_script_error
  config_error := runScript_of_config_error (t := .uint w)
  lines := transcript_of_outcomes_eq
  ok_iff := by
    intro commands report h hconfig
    rcases runScript_of_commands warmup hfits h hconfig with
      ⟨hclean, hrun⟩ | ⟨hnot, _, _, _, e, -, -, -, hrun⟩
    · rw [hrun, Except.ok.injEq]
      exact ⟨fun heq => ⟨hclean, heq.symm⟩, fun hboth => hboth.2.symm⟩
    · rw [hrun]
      exact ⟨nofun, fun hboth => absurd hboth.1 hnot⟩
  first_offence := by
    intro commands h hconfig hoffends
    rcases runScript_of_commands warmup hfits h hconfig with ⟨hclean, -⟩ | ⟨-, hfirst⟩
    · exact absurd hclean hoffends
    · exact hfirst
  schedules := by
    intro commands m own h hnew hown
    obtain ⟨g, hvalid⟩ := Memory.exists_validate_of_new hnew
    exact runScript_settles h hvalid hfits hnew hown
  served := runScript_served script warmup hfits

theorem runScript_ends_bytes :
    6 * IntWidth.w8.bits < Size.limit ∧
      (⟨6, 3, 2⟩ : Config).firstFailing IntWidth.w8.bits = none ∧
      outcomes (utf8 "#\n5,W,3,1AB\n0,R,3,AB\n") =
        [⟨5, .write 3 0x1AB, 2⟩, ⟨0, .read 3 0xAB, 3⟩].map .ok ∧
      runScript (utf8 "#\n5,W,3,1AB\n0,R,3,AB\n") (.uint .w8) ⟨6, 3, 2⟩ 20 =
        .ok ⟨1, 1, 25⟩ := by
  have hfits : 6 * IntWidth.w8.bits < Size.limit := by decide
  have hconfig : (⟨6, 3, 2⟩ : Config).firstFailing IntWidth.w8.bits = none := by decide
  have houtcomes : outcomes (utf8 "#\n5,W,3,1AB\n0,R,3,AB\n") =
      [⟨5, .write 3 0x1AB, 2⟩, ⟨0, .read 3 0xAB, 3⟩].map .ok := by decide
  have hclean : Clean .w8 6 [⟨5, .write 3 0x1AB, 2⟩, ⟨0, .read 3 0xAB, 3⟩] := by
    refine ⟨by decide, fun earlier c later addr expected hsplit hread => ?_⟩
    rcases earlier with _ | ⟨first, _ | ⟨second, rest⟩⟩
    · cases hsplit
      cases hread
    · cases hsplit
      cases hread
      rfl
    · simp at hsplit
  exact ⟨hfits, hconfig, houtcomes,
    ((runScript_ends (utf8 "#\n5,W,3,1AB\n0,R,3,AB\n") 20 hfits).ok_iff houtcomes hconfig).mpr
      ⟨hclean, rfl⟩⟩

end BankedStore
