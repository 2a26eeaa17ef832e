import BankedStore.Run
import BankedStore.Proofs.Link.Clients
import BankedStore.Proofs.Link.Transport
import BankedStore.Proofs.Playback.Answers

/-!
# Playback does not show the shape of a memory

A fresh memory mirrors a flat array that holds the default word everywhere.  That
array depends on the element type and on the number of entries, and neither on the
banks nor on the slices.  A memory behind a link is played on like the memory
itself.  So all shapes of one number of entries give one outcome and end with the
same words.
-/

namespace BankedStore

variable {t : ElementType}

namespace FlatBus

def fresh (t : ElementType) (entries : Nat) : FlatBus where
  offsetBits := Size.log2Ceil ((t.width + 7) / 8)
  capacity := entries
  width := t.width
  cells _ := (Value.pack t default).toNat

theorem faultless : Bus.Faultless FlatBus :=
  fun b call => (perform_served b call).not_faulted

end FlatBus

/-- Word after word, in the order of the configuration's banks, the memory holds these. -/
def Memory.Holds (m : Memory t) (config : Config) (words : Nat → Bits) : Prop :=
  ∀ w < config.totalEntries,
    m.readBits ⟨w / config.bankCount, w % config.bankCount⟩ = .ok (words w)

/-! ## On a link -/

theorem Link.play_connect {m : Memory t} {map : AddressMap} (hm : m.Sound)
    (hmap : map.Within m.geometry) (p : Player) :
    (p.play (connect (⟨m, map, 0⟩ : MemoryBus t))).1 = (p.play (⟨m, map, 0⟩ : MemoryBus t)).1 ∧
      ∃ served, (p.play (connect (⟨m, map, 0⟩ : MemoryBus t))).2.join = .ok served ∧
        served.memory = (p.play (⟨m, map, 0⟩ : MemoryBus t)).2.memory := by
  obtain ⟨hlink, hbetween⟩ := Player.play_alike simulation_between
    (Between.waiting (⟨m, map, 0⟩ : MemoryBus t) 0) p
  obtain ⟨hremote, hserves⟩ := Player.play_alike Remote.simulation_serves
    (Remote.serves_direct hm hmap) p
  have hjoin := hbetween.join_eq
  rw [hserves.bus] at hjoin
  exact ⟨hlink.trans hremote, _, hjoin, rfl⟩

namespace Player

variable {σ : Type} [Bus σ]

def session (p : Player) (bus : σ) (schedule : List Session.Action) : Option (Session σ) :=
  (Session.start [] bus).runBy p.nextCall schedule

/-- Under every schedule player and server come to an end, with this outcome of the playback and
such a bus handed back. -/
structure SettlesOn (p : Player) (bus : σ) (outcome : Except (Failure PlayError) Report)
    (last : σ → Prop) : Prop where
  bounded {schedule : List Session.Action} {s : Session σ} (h : p.session bus schedule = some s) :
    s.link.inFlight ≤ 1 ∧ schedule.length ≤ 14 * p.commands.length + 12
  ends {schedule : List Session.Action} {s : Session σ} (h : p.session bus schedule = some s)
    (hstuck : ∀ action, s.stepBy p.nextCall action = none) :
    p.outcome s.answers = outcome ∧ ∃ served, s.link.join = .ok served ∧ last served

theorem SettlesOn.mono {p : Player} {bus : σ} {outcome : Except (Failure PlayError) Report}
    {last other : σ → Prop} (h : p.SettlesOn bus outcome last)
    (hlast : ∀ served, last served → other served) : p.SettlesOn bus outcome other where
  bounded := h.bounded
  ends hrun hstuck := by
    obtain ⟨houtcome, served, hjoin, hserved⟩ := h.ends hrun hstuck
    exact ⟨houtcome, served, hjoin, hlast served hserved⟩

/-- Which calls the player makes depends on the answers, and these do not depend on the schedule. -/
theorem settlesOn_memory {m : Memory t} {map : AddressMap} (hm : m.Sound)
    (hmap : map.Within m.geometry) (p : Player) :
    p.SettlesOn (⟨m, map, 0⟩ : MemoryBus t) (p.play (⟨m, map, 0⟩ : MemoryBus t)).1
      fun served => served.memory = (p.play (⟨m, map, 0⟩ : MemoryBus t)).2.memory := by
  have hagrees : Session.Agrees p.nextCall (⟨some ⟨m, map, 0⟩, 0⟩ : Remote (MemoryBus t))
      (p.callsOn (⟨some ⟨m, map, 0⟩, 0⟩ : Remote (MemoryBus t))) :=
    fun done later hsplit => p.nextCall_run _ hsplit
  refine ⟨fun h => ?_, fun h hstuck => ?_⟩
  · obtain ⟨hflight, hlength, -⟩ := Session.runBy_settles hagrees h
    have hcalls := p.length_callsOn_le (⟨some ⟨m, map, 0⟩, 0⟩ : Remote (MemoryBus t))
    exact ⟨hflight, by omega⟩
  · obtain ⟨-, -, hends⟩ := Session.runBy_settles hagrees h
    obtain ⟨hanswers, hsettled⟩ := hends hstuck
    obtain ⟨houtcome, hserves⟩ := play_alike Remote.simulation_serves
      (Remote.serves_direct hm hmap) p
    rw [← play_snd, hserves.bus] at hsettled
    rw [hanswers, outcome_run, houtcome]
    exact ⟨rfl, _, hsettled.join_eq, rfl⟩

end Player

/-! ## On a fresh memory -/

section Fresh

variable {config : Config} {g : Geometry}

theorem Memory.new_mirrors (hvalid : config.validate t.width = .ok g)
    (hfits : config.totalEntries * t.width < Size.limit) :
    ∃ m own, Memory.new t config = .ok m ∧ AddressMap.ofGeometry m.geometry = .ok own ∧
      m.Sound ∧ own.Within m.geometry ∧ own.bankCount = config.bankCount ∧
      own.words = config.totalEntries ∧
      MemoryBus.Mirrors m own ⟨m, own, 0⟩ (.fresh t config.totalEntries) := by
  obtain ⟨-, hbanks, -, -, hsplit, -, rfl⟩ := Config.validate_eq_ok_iff.mp hvalid
  obtain ⟨m, hnew, hsound, -, hgeometry, hword⟩ :=
    Memory.new_eq_ok hvalid (Geometry.consistent_of_fits hvalid hfits)
  have hown := AddressMap.ofParts_eq_ok t.width hbanks (config.totalEntries / config.bankCount)
  have hwords : config.totalEntries / config.bankCount * config.bankCount = config.totalEntries :=
    Nat.div_mul_cancel hsplit
  have hwithin : (⟨Size.log2Ceil ((t.width + 7) / 8), config.bankCount,
      config.totalEntries / config.bankCount⟩ : AddressMap).Within m.geometry := by
    rw [hgeometry]
    exact ⟨⟨t.width, hsound.width_lt, hown⟩, le_rfl, le_rfl⟩
  refine ⟨m, _, hnew, by rw [hgeometry]; exact hown, hsound, hwithin, rfl, hwords, ?_⟩
  exact {
    sound := hsound
    geometry := rfl
    sameMap := rfl
    offsetBits := rfl
    capacity := hwords.symm
    width := rfl
    idleCycles := rfl
    cells := fun w hw => by
      rw [hword _ (by rw [← hgeometry]; exact hwithin.contains (hwithin.covers_locate hw))]
      rfl
    outside := fun l hl hl' => rfl }

/-- Played through its own map, a fresh memory of the configuration ends the list with this outcome
and then holds these words; so it does behind a link, which hands it back, and behind a link whose
server works at its own pace. -/
def Config.PlaysTo (t : ElementType) (config : Config) (p : Player)
    (outcome : Except PlayError Report) (words : Nat → Bits) : Prop :=
  ∃ m own, Memory.new t config = .ok m ∧ AddressMap.ofGeometry m.geometry = .ok own ∧
    (∃ direct : MemoryBus t,
      p.play (⟨m, own, 0⟩ : MemoryBus t) = (Failure.ofRefusal outcome, direct) ∧
        direct.memory.Holds config words) ∧
    (∃ (link : Link (MemoryBus t)) (served : MemoryBus t),
      p.play (Link.connect ⟨m, own, 0⟩) = (Failure.ofRefusal outcome, link) ∧
        link.join = .ok served ∧ served.memory.Holds config words) ∧
    p.SettlesOn (⟨m, own, 0⟩ : MemoryBus t) (Failure.ofRefusal outcome) fun served =>
      served.memory.Holds config words

theorem MemoryBus.Mirrors.holds {m : Memory t} {own : AddressMap} {b : MemoryBus t}
    {flat : FlatBus} (h : Mirrors m own b flat) (hwithin : own.Within m.geometry)
    (hbanks : own.bankCount = config.bankCount) (hwords : own.words = config.totalEntries) :
    b.memory.Holds config fun w => .ofNat t.width (flat.cells w) := by
  intro w hw
  rw [← hwords] at hw
  have hread := h.readBits_inside hwithin (hwithin.covers_locate hw)
  rw [AddressMap.number_locate, AddressMap.locate, hbanks] at hread
  exact hread

theorem Config.playsTo_fresh (hvalid : config.validate t.width = .ok g)
    (hfits : config.totalEntries * t.width < Size.limit) {p : Player}
    {outcome : Except PlayError Report} {flat : FlatBus}
    (hplay : p.play (FlatBus.fresh t config.totalEntries) = (Failure.ofRefusal outcome, flat)) :
    config.PlaysTo t p outcome fun w => .ofNat t.width (flat.cells w) := by
  obtain ⟨m, own, hnew, hown, hsound, hwithin, hbanks, hwords, hmirrors⟩ :=
    Memory.new_mirrors hvalid hfits
  obtain ⟨hdirect, hfinal⟩ :=
    Player.play_alike (MemoryBus.simulation_mirrors hwithin) hmirrors p
  obtain ⟨hlink, served, hjoin, hserved⟩ := Link.play_connect hsound hwithin p
  rw [hplay] at hdirect hfinal
  have hholds := hfinal.holds hwithin hbanks hwords
  have hsettles := Player.settlesOn_memory hsound hwithin p
  rw [hdirect] at hsettles
  refine ⟨m, own, hnew, hown, ⟨_, Prod.ext hdirect rfl, hholds⟩,
    ⟨_, served, Prod.ext (hlink.trans hdirect) rfl, hjoin, hserved ▸ hholds⟩, ?_⟩
  exact hsettles.mono fun _ hmemory => hmemory ▸ hholds

theorem runScript_eq_direct {m : Memory t} {own : AddressMap} (hnew : Memory.new t config = .ok m)
    (hown : AddressMap.ofGeometry m.geometry = .ok own) (hm : m.Sound)
    (hwithin : own.Within m.geometry) (script : List UInt8) (warmup : UInt64) :
    runScript script t config warmup = (do
      let commands ← Failure.ofRefusal ((loadScript script).mapError .script)
      let (result, _) := Player.play ⟨commands, warmup⟩ (⟨m, own, 0⟩ : MemoryBus t)
      result.mapError (Failure.map .playback)) := by
  rw [runScript]
  cases loadScript script with
  | error e => rfl
  | ok commands =>
      obtain ⟨hlink, served, hjoin, -⟩ := Link.play_connect hm hwithin ⟨commands, warmup⟩
      simp only [hnew, Except.mapError, Failure.ofRefusal, Failure.ofFault, bind, Except.bind,
        hown, hjoin, hlink]

theorem runScript_eq_flat (hvalid : config.validate t.width = .ok g)
    (hfits : config.totalEntries * t.width < Size.limit) (script : List UInt8)
    (warmup : UInt64) :
    runScript script t config warmup = (do
      let commands ← Failure.ofRefusal ((loadScript script).mapError .script)
      let (result, _) := Player.play ⟨commands, warmup⟩ (FlatBus.fresh t config.totalEntries)
      result.mapError (Failure.map .playback)) := by
  obtain ⟨m, own, hnew, hown, hsound, hwithin, -, -, hmirrors⟩ :=
    Memory.new_mirrors hvalid hfits
  rw [runScript_eq_direct hnew hown hsound hwithin]
  cases loadScript script with
  | error e => rfl
  | ok commands =>
      obtain ⟨hdirect, -⟩ := Player.play_alike (MemoryBus.simulation_mirrors hwithin) hmirrors
        ⟨commands, warmup⟩
      simp only [Except.mapError, Failure.ofRefusal, bind, Except.bind, hdirect]

end Fresh

/-- Two configurations of as many entries, whatever their banks and slices: fresh memories of both
end every list with one outcome, never with a fault, and then hold the same words; a run of a
script with either comes to the same. -/
theorem Config.plays_alike {config other : Config} {g g' : Geometry}
    (hvalid : config.validate t.width = .ok g) (hother : other.validate t.width = .ok g')
    (hentries : other.totalEntries = config.totalEntries)
    (hfits : config.totalEntries * t.width < Size.limit) :
    (∀ p : Player, ∃ outcome words,
      config.PlaysTo t p outcome words ∧ other.PlaysTo t p outcome words) ∧
    ∀ script warmup, runScript script t config warmup = runScript script t other warmup := by
  have hfits' : other.totalEntries * t.width < Size.limit := by rw [hentries]; exact hfits
  constructor
  · intro p
    obtain ⟨outcome, houtcome⟩ :=
      Player.play_faultless FlatBus.faultless p (FlatBus.fresh t config.totalEntries)
    obtain ⟨flat, hplay⟩ : ∃ flat, p.play (FlatBus.fresh t config.totalEntries) =
        (Failure.ofRefusal outcome, flat) := ⟨_, Prod.ext houtcome rfl⟩
    have hplay' := hplay
    rw [← hentries] at hplay'
    exact ⟨outcome, _, Config.playsTo_fresh hvalid hfits hplay,
      Config.playsTo_fresh hother hfits' hplay'⟩
  · intro script warmup
    rw [runScript_eq_flat hvalid hfits, runScript_eq_flat hother hfits', hentries]

theorem Config.plays_alike_tags :
    (⟨6, 3, 4⟩ : Config).validate ElementType.tag12.width = .ok ⟨2, 3, 4, 12⟩ ∧
      (⟨6, 2, 1⟩ : Config).validate ElementType.tag12.width = .ok ⟨3, 2, 1, 12⟩ ∧
      6 * ElementType.tag12.width < Size.limit ∧
      ∃ outcome words,
        (⟨6, 3, 4⟩ : Config).PlaysTo .tag12
          ⟨[⟨0, .write 3 0xABCD, 1⟩, ⟨5, .read 2 0xABCD, 2⟩], 20⟩ outcome words ∧
        (⟨6, 2, 1⟩ : Config).PlaysTo .tag12
          ⟨[⟨0, .write 3 0xABCD, 1⟩, ⟨5, .read 2 0xABCD, 2⟩], 20⟩ outcome words := by
  have hvalid : (⟨6, 3, 4⟩ : Config).validate ElementType.tag12.width = .ok ⟨2, 3, 4, 12⟩ := rfl
  have hother : (⟨6, 2, 1⟩ : Config).validate ElementType.tag12.width = .ok ⟨3, 2, 1, 12⟩ := rfl
  have hfits : 6 * ElementType.tag12.width < Size.limit := by decide
  exact ⟨hvalid, hother, hfits, (Config.plays_alike hvalid hother rfl hfits).1 _⟩

end BankedStore
