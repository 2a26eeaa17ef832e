import BankedStore.Bus.MemoryBus
import BankedStore.Proofs.Bus.Addresses
import BankedStore.Proofs.Bus.Calls
import BankedStore.Proofs.Memory.WholeWords

/-!
# The flat array behind a bus

A bus user sees no banks, entries or slices.  `FlatBus` is one array of numbered
words: a write replaces a word by the low bits of its data, a read gives the low
64 bits of a word, and a request past the last word is refused.  A memory on the
bus answers every run of calls as the flat array of its words does.
-/

namespace BankedStore

/-- Words are numbers below `2 ^ width`; only those below the capacity count. -/
structure FlatBus where
  offsetBits : Nat
  capacity : Nat
  width : Nat
  cells : Nat → Nat
  idleCycles : UInt64 := 0

namespace FlatBus

def word (b : FlatBus) (addr : UInt64) : Nat :=
  addr.toNat / 2 ^ b.offsetBits

def write (b : FlatBus) (addr data : UInt64) : Except (Failure BusError) Unit × FlatBus :=
  if b.word addr < b.capacity then
    (.ok (), { b with
      cells := fun w => if w = b.word addr then data.toNat % 2 ^ b.width else b.cells w })
  else (.error (.refused (.addressOutOfRange addr b.capacity)), b)

def read (b : FlatBus) (addr : UInt64) : Except (Failure BusError) UInt64 :=
  if b.word addr < b.capacity then .ok (UInt64.ofNat (b.cells (b.word addr)))
  else .error (.refused (.addressOutOfRange addr b.capacity))

instance : Bus FlatBus where
  write := write
  read b addr := (b.read addr, b)
  idle b cycles := { b with idleCycles := Size.saturatingAdd b.idleCycles cycles }

/-- The words of a memory in the order of a map. -/
def view {t : ElementType} (m : Memory t) (map : AddressMap) : FlatBus where
  offsetBits := map.offsetBits
  capacity := map.words
  width := t.width
  cells w := (m.wordAt (map.locate w)).toNat

theorem perform_served (b : FlatBus) (call : BusCall) : (Bus.perform b call).1.Served := by
  cases call with
  | write addr data =>
      change (BusAnswer.written (b.write addr data).1).Served
      unfold write
      split <;> trivial
  | read addr =>
      change (BusAnswer.data (b.read addr)).Served
      unfold read
      split <;> trivial
  | idle cycles => trivial

theorem run_served (b : FlatBus) (calls : List BusCall) :
    ∀ answer ∈ (Bus.run b calls).1, answer.Served := by
  induction calls generalizing b with
  | nil => simp [Bus.run]
  | cons call calls ih =>
      intro answer hanswer
      rcases List.mem_cons.mp hanswer with rfl | hanswer
      · exact perform_served b call
      · exact ih _ answer hanswer

end FlatBus

namespace MemoryBus

variable {t : ElementType} {b : MemoryBus t}

def stored (t : ElementType) (data : UInt64) : Bits :=
  .ofUInt64 t.width data

theorem toNat_stored (t : ElementType) (data : UInt64) :
    (stored t data).toNat = data.toNat % 2 ^ t.width :=
  Bits.toNat_ofUInt64 ..

theorem wellFormed_stored (t : ElementType) (data : UInt64) : (stored t data).WellFormed :=
  Bits.wellFormed_ofWords ..

/-! ## One request -/

theorem write_eq (h : b.memory.Sound) (hmap : b.map.Within b.memory.geometry)
    (addr data : UInt64) :
    Bus.write b addr data =
      if b.map.word addr < b.map.words then
        (.ok (), { b with
          memory := b.memory.put (b.map.locate (b.map.word addr)) (stored t data) })
      else (.error (.refused (b.map.refusal addr)), b) := by
  change MemoryBus.write b addr data = _
  rw [MemoryBus.write, written, hmap.decode_eq h.consistent]
  by_cases hword : b.map.word addr < b.map.words
  · have hl := hmap.contains (hmap.covers_locate hword)
    obtain ⟨value, hvalue, hstore⟩ :=
      Memory.exists_store_eq_ok h hl rfl (wellFormed_stored t data)
    rw [if_pos hword, if_pos hword]
    have hwritten : (do
        let value ← Failure.ofFault (Value.unpack t (stored t data))
        Failure.ofFault (b.memory.store (b.map.locate (b.map.word addr)) value) :
          Except (Failure BusError) (Memory t)) =
        .ok (b.memory.put (b.map.locate (b.map.word addr)) (stored t data)) := by
      rw [hvalue]
      change Failure.ofFault (b.memory.store _ value) = _
      rw [hstore]
      rfl
    rw [stored] at hwritten
    simp only [bind, Except.bind] at hwritten ⊢
    rw [hwritten]
    rfl
  · rw [if_neg hword, if_neg hword]
    rfl

theorem read_eq (h : b.memory.Sound) (hmap : b.map.Within b.memory.geometry) (addr : UInt64) :
    Bus.read b addr =
      (if b.map.word addr < b.map.words then
        .ok (b.memory.wordAt (b.map.locate (b.map.word addr))).toUInt64
      else .error (.refused (b.map.refusal addr)), b) := by
  change (MemoryBus.read b addr, b) = _
  rw [MemoryBus.read, hmap.decode_eq h.consistent]
  by_cases hword : b.map.word addr < b.map.words
  · have hl := hmap.contains (hmap.covers_locate hword)
    obtain ⟨value, hread, hpack⟩ := h.exists_read_eq_ok hl
    rw [if_pos hword, if_pos hword]
    change ((do
      let value ← Failure.ofFault (b.memory.read (b.map.locate (b.map.word addr)))
      return (value.pack t).toUInt64 : Except (Failure BusError) UInt64), b) = _
    rw [hread, ← hpack]
    rfl
  · rw [if_neg hword, if_neg hword]
    rfl

/-! ## Runs of calls -/

structure Mirrors (start : Memory t) (map : AddressMap) (b : MemoryBus t) (flat : FlatBus) :
    Prop where
  sound : b.memory.Sound
  geometry : b.memory.geometry = start.geometry
  sameMap : b.map = map
  offsetBits : flat.offsetBits = map.offsetBits
  capacity : flat.capacity = map.words
  width : flat.width = t.width
  idleCycles : b.idleCycles = flat.idleCycles
  cells : ∀ w < map.words, (b.memory.wordAt (map.locate w)).toNat = flat.cells w
  outside : ∀ l, start.geometry.contains l → ¬ map.Covers l →
    b.memory.wordAt l = start.wordAt l

theorem Mirrors.write {start : Memory t} {map : AddressMap} {flat : FlatBus}
    (hmap : map.Within start.geometry) (h : Mirrors start map b flat) (addr data : UInt64) :
    (Bus.write b addr data).1 = (Bus.write flat addr data).1 ∧
      Mirrors start map (Bus.write b addr data).2 (Bus.write flat addr data).2 := by
  have hword : flat.word addr = map.word addr := by rw [FlatBus.word, h.offsetBits]; rfl
  rw [write_eq h.sound (by rw [h.sameMap, h.geometry]; exact hmap), h.sameMap]
  change _ = (FlatBus.write flat addr data).1 ∧ Mirrors _ _ _ (FlatBus.write flat addr data).2
  rw [FlatBus.write, hword, h.capacity]
  by_cases hin : map.word addr < map.words
  · rw [if_pos hin, if_pos hin]
    have hl : b.memory.geometry.contains (map.locate (map.word addr)) := by
      rw [h.geometry]
      exact hmap.contains (hmap.covers_locate hin)
    have hput : ∀ l, b.memory.geometry.contains l → _ :=
      fun _ => Memory.wordAt_put h.sound hl rfl (wellFormed_stored t data)
    refine ⟨rfl, ?_⟩
    exact {
      sound := h.sound.put _ _
      geometry := (Memory.geometry_put h.sound _ _).trans h.geometry
      sameMap := rfl
      offsetBits := h.offsetBits
      capacity := rfl
      width := h.width
      idleCycles := h.idleCycles
      cells := fun w hw => by
        have hl' : b.memory.geometry.contains (map.locate w) := by
          rw [h.geometry]
          exact hmap.contains (hmap.covers_locate hw)
        dsimp only
        rw [hput _ hl']
        by_cases hsame : w = map.word addr
        · rw [if_pos (congrArg _ hsame), if_pos hsame, toNat_stored, h.width]
        · rw [if_neg (mt AddressMap.locate_inj.mp hsame), if_neg hsame]
          exact h.cells w hw
      outside := fun l hl' houtside => by
        have hne : l ≠ map.locate (map.word addr) :=
          fun heq => houtside (heq ▸ hmap.covers_locate hin)
        dsimp only
        rw [hput l (by rw [h.geometry]; exact hl'), if_neg hne]
        exact h.outside l hl' houtside }
  · rw [if_neg hin, if_neg hin]
    refine ⟨?_, h⟩
    rw [AddressMap.refusal]

theorem Mirrors.read {start : Memory t} {map : AddressMap} {flat : FlatBus}
    (hmap : map.Within start.geometry) (h : Mirrors start map b flat) (addr : UInt64) :
    (Bus.read b addr).1 = (Bus.read flat addr).1 ∧
      Mirrors start map (Bus.read b addr).2 (Bus.read flat addr).2 := by
  have hword : flat.word addr = map.word addr := by rw [FlatBus.word, h.offsetBits]; rfl
  rw [read_eq h.sound (by rw [h.sameMap, h.geometry]; exact hmap), h.sameMap]
  refine ⟨?_, h⟩
  change _ = FlatBus.read flat addr
  rw [FlatBus.read, hword, h.capacity]
  by_cases hin : map.word addr < map.words
  · rw [if_pos hin, if_pos hin]
    refine congrArg Except.ok (UInt64.toNat_inj.mp ?_)
    rw [Bits.toNat_toUInt64, h.cells _ hin]
    rfl
  · rw [if_neg hin, if_neg hin]
    rfl

theorem simulation_mirrors {start : Memory t} {map : AddressMap}
    (hmap : map.Within start.geometry) : Bus.Simulation (Mirrors start map) := by
  intro b flat h call
  cases call with
  | write addr data =>
      obtain ⟨hanswer, hnext⟩ := h.write hmap addr data
      exact ⟨congrArg BusAnswer.written hanswer, hnext⟩
  | read addr =>
      obtain ⟨hanswer, hnext⟩ := h.read hmap addr
      exact ⟨congrArg BusAnswer.data hanswer, hnext⟩
  | idle cycles =>
      refine ⟨rfl, { h with idleCycles := ?_ }⟩
      exact congrArg (Size.saturatingAdd · cycles) h.idleCycles

theorem mirrors_view (h : b.memory.Sound) :
    Mirrors b.memory b.map b { FlatBus.view b.memory b.map with idleCycles := b.idleCycles } where
  sound := h
  geometry := rfl
  sameMap := rfl
  offsetBits := rfl
  capacity := rfl
  width := rfl
  idleCycles := rfl
  cells _ _ := rfl
  outside _ _ _ := rfl

theorem perform_served (h : b.memory.Sound) (hmap : b.map.Within b.memory.geometry)
    (call : BusCall) : (Bus.perform b call).1.Served := by
  rw [(simulation_mirrors hmap b _ (mirrors_view h) call).1]
  exact FlatBus.perform_served _ call

theorem run_served (h : b.memory.Sound) (hmap : b.map.Within b.memory.geometry)
    (calls : List BusCall) : ∀ answer ∈ (Bus.run b calls).1, answer.Served := by
  rw [((simulation_mirrors hmap).run (mirrors_view h) calls).1]
  exact FlatBus.run_served _ calls

theorem perform_keeps (h : b.memory.Sound) (hmap : b.map.Within b.memory.geometry)
    (call : BusCall) :
    (Bus.perform b call).2.memory.Sound ∧
      (Bus.perform b call).2.map.Within (Bus.perform b call).2.memory.geometry := by
  obtain ⟨-, hnext⟩ := simulation_mirrors hmap b _ (mirrors_view h) call
  refine ⟨hnext.sound, ?_⟩
  rw [hnext.sameMap, hnext.geometry]
  exact hmap

theorem Mirrors.readBits_inside {start : Memory t} {map : AddressMap} {flat : FlatBus}
    (hmap : map.Within start.geometry) (h : Mirrors start map b flat) {l : Location}
    (hl : map.Covers l) :
    b.memory.readBits l = .ok (.ofNat t.width (flat.cells (map.number l))) := by
  have hin : b.memory.geometry.contains l := by
    rw [h.geometry]
    exact hmap.contains hl
  have hcell := h.cells _ (AddressMap.number_lt hl)
  rw [AddressMap.locate_number hl] at hcell
  rw [h.sound.readBits_eq_ok hin, ← hcell, ← h.sound.width_wordAt hin,
    Bits.ofNat_toNat (h.sound.wellFormed_wordAt hin)]

theorem Mirrors.readBits_outside {start : Memory t} {map : AddressMap} {flat : FlatBus}
    (hstart : start.Sound) (h : Mirrors start map b flat) {l : Location} (hl : ¬ map.Covers l) :
    b.memory.readBits l = start.readBits l := by
  by_cases hin : start.geometry.contains l
  · rw [hstart.readBits_eq_ok hin, h.sound.readBits_eq_ok (by rw [h.geometry]; exact hin),
      h.outside l hin hl]
  · rw [Memory.readBits, Memory.readBits, Memory.expectInside, Memory.expectInside, h.geometry,
      if_neg hin]
    rfl

/-- Whatever the map within a reachable memory, every run of calls is answered as the flat array
of the memory's words answers it, and never with a fault.  Afterwards the entries that the map
covers hold the words of the array and all others are as they were.  The memory's own map is one
such map. -/
theorem run_eq_flat {m : Memory t} (hm : m.Reachable) :
    (∃ own, AddressMap.ofGeometry m.geometry = .ok own ∧
      own.bankCount = m.geometry.bankCount ∧ own.entriesPerBank = m.geometry.entriesPerBank ∧
      own.Within m.geometry) ∧
    ∀ map : AddressMap, map.Within m.geometry → ∀ calls : List BusCall, ∃ final : MemoryBus t,
      Bus.run (⟨m, map, 0⟩ : MemoryBus t) calls =
        ((Bus.run (FlatBus.view m map) calls).1, final) ∧
      (∀ answer ∈ (Bus.run (FlatBus.view m map) calls).1, ¬ answer.Faulted) ∧
      final.idleCycles = (Bus.run (FlatBus.view m map) calls).2.idleCycles ∧
      (∀ l, map.Covers l → final.memory.readBits l =
        .ok (.ofNat t.width ((Bus.run (FlatBus.view m map) calls).2.cells (map.number l)))) ∧
      ∀ l, ¬ map.Covers l → final.memory.readBits l = m.readBits l := by
  have hsound := hm.sound
  refine ⟨AddressMap.ofGeometry_eq_ok hsound.consistent, ?_⟩
  intro map hmap calls
  obtain ⟨hanswers, hfinal⟩ :=
    (simulation_mirrors hmap).run (mirrors_view (b := ⟨m, map, 0⟩) hsound) calls
  exact ⟨_, Prod.ext hanswers rfl,
    fun answer hanswer => (FlatBus.run_served _ calls answer hanswer).not_faulted,
    hfinal.idleCycles,
    fun l hl => hfinal.readBits_inside hmap hl,
    fun l hl => hfinal.readBits_outside hsound hl⟩

/-- Tags of twelve bits in three banks, under a map that covers two of the six entries. -/
theorem run_eq_flat_tags :
    ∃ m, Memory.new .tag12 ⟨6, 3, 4⟩ = .ok m ∧ m.Reachable ∧
      (⟨1, 2, 1⟩ : AddressMap).Within m.geometry ∧
      (Bus.run (⟨m, ⟨1, 2, 1⟩, 0⟩ : MemoryBus .tag12) [.write 3 0xABCD, .read 2, .read 4]).1 =
        [.written (.ok ()), .data (.ok 0xBCD),
          .data (.error (.refused (.addressOutOfRange 4 2)))] := by
  have hvalid : (⟨6, 3, 4⟩ : Config).validate ElementType.tag12.width = .ok ⟨2, 3, 4, 12⟩ := rfl
  obtain ⟨m, hnew, -, -, hgeometry, -⟩ := Memory.new_eq_ok (t := .tag12) hvalid
    (Geometry.consistent_of_fits hvalid (by decide))
  have hm : m.Reachable := ⟨_, m, [], by decide, by decide, hnew, rfl⟩
  have hmap : (⟨1, 2, 1⟩ : AddressMap).Within m.geometry := by
    rw [hgeometry]
    exact ⟨⟨12, by decide, rfl⟩, by decide, by decide⟩
  obtain ⟨final, hrun, -⟩ := (run_eq_flat hm).2 ⟨1, 2, 1⟩ hmap [.write 3 0xABCD, .read 2, .read 4]
  refine ⟨m, hnew, hm, hmap, ?_⟩
  rw [hrun]
  simp [Bus.run, Bus.perform, Bus.write, Bus.read, FlatBus.write, FlatBus.read, FlatBus.view,
    FlatBus.word, AddressMap.words, ElementType.width]

end MemoryBus

end BankedStore
