import BankedStore.Proofs.Memory.Access

/-!
# One state for each content

Whatever was done to a memory, it has the banks, the slots and the slices of its
geometry, and all its entries can be read.  Nothing of its history is left but the
words that are read: two states that read alike are the same state.  A cleared
memory reads as zero everywhere, so clearing leads to one state from all others.
-/

namespace BankedStore.Memory

variable {t : ElementType}

structure Shaped (m : Memory t) (config : Config) (g : Geometry) : Prop where
  config : m.config = config
  geometry : m.geometry = g
  banks : m.banks.size = g.bankCount
  slots : ∀ bank ∈ m.banks, bank.slices.size = g.entriesPerBank * g.byteEnables
  slices : ∀ bank ∈ m.banks, ∀ slice ∈ bank.slices,
    slice.width = g.sliceWidth ∧ slice.WellFormed

def Legible (m : Memory t) (l : Location) : Prop :=
  ∃ word value, m.readBits l = .ok word ∧ m.read l = .ok value ∧ m.tryRead l = .ok value ∧
    ∀ s < m.geometry.byteEnables, ∃ slice, m.slice l s = .ok slice ∧
      word.range (s * m.geometry.sliceWidth) m.geometry.sliceWidth = .ok slice

namespace Sound

variable {m other : Memory t}

theorem shaped (h : m.Sound) : m.Shaped m.config m.geometry := by
  have hbank : ∀ bank ∈ m.banks, ∃ i < m.geometry.bankCount, m.bankAt i = bank := by
    intro bank hmem
    obtain ⟨i, hi, rfl⟩ := Array.mem_iff_getElem.mp hmem
    exact ⟨i, h.banks ▸ hi, by simp [bankAt, hi]⟩
  refine ⟨rfl, rfl, h.banks, ?_, ?_⟩
  · intro bank hmem
    obtain ⟨i, hi, rfl⟩ := hbank bank hmem
    exact h.slots i hi
  · intro bank hmem slice hslice
    obtain ⟨i, hi, rfl⟩ := hbank bank hmem
    obtain ⟨slot, hslot, rfl⟩ := Array.mem_iff_getElem.mp hslice
    have hslices := h.slices i hi slot hslot
    simpa [Bank.slotAt, hslot] using hslices

/-! ## Slices are fields of the word -/

theorem slice_le (h : m.Sound) {s : Nat} (hs : s < m.geometry.byteEnables) :
    s * m.geometry.sliceWidth + m.geometry.sliceWidth ≤ t.width := by
  rw [← h.wordWidth, ← h.consistent.slices, ← Nat.succ_mul]
  exact Nat.mul_le_mul_right _ hs

theorem field_wordAt (h : m.Sound) {l : Location} {s : Nat} (hl : m.geometry.contains l)
    (hs : s < m.geometry.byteEnables) :
    (m.wordAt l).field (s * m.geometry.sliceWidth) m.geometry.sliceWidth = m.sliceAt l s := by
  have hwidth := h.width_sliceAt hl hs
  refine Bits.toNat_injective hwidth.symm (Nat.eq_of_testBit_eq fun i => ?_)
  rw [Bits.testBit_toNat_field]
  by_cases hi : i < m.geometry.sliceWidth
  · have hinside : s * m.geometry.sliceWidth + i < t.width := by
      have hslice := h.slice_le hs
      omega
    rw [h.testBit_wordAt hl hinside, mul_add_div_of_lt hi, Nat.mul_add_mod_of_lt hi]
    simp [hi]
  · have hclear := Bits.wellFormed_iff.mp (h.wellFormed_sliceAt hl hs) i (by omega)
    simp [hi, hclear]

theorem range_wordAt (h : m.Sound) {l : Location} {s : Nat} (hl : m.geometry.contains l)
    (hs : s < m.geometry.byteEnables) :
    (m.wordAt l).range (s * m.geometry.sliceWidth) m.geometry.sliceWidth =
      .ok (m.sliceAt l s) := by
  have hwidth := h.width_wordAt hl
  rw [Bits.range_eq_ok _ (hwidth ▸ h.slice_le hs) (hwidth ▸ h.width_lt), h.field_wordAt hl hs]

theorem legible (h : m.Sound) {l : Location} (hl : m.geometry.contains l) : m.Legible l := by
  obtain ⟨value, hread, -⟩ := h.exists_read_eq_ok hl
  refine ⟨m.wordAt l, value, h.readBits_eq_ok hl, hread, ?_, ?_⟩
  · rw [tryRead, Geometry.check_eq_ok_iff.mpr hl, hread]
    rfl
  · exact fun s hs => ⟨m.sliceAt l s, h.slice_eq_ok hl hs, h.range_wordAt hl hs⟩

/-! ## Words determine the state -/

theorem eq_of_sliceAt (h : m.Sound) (hother : other.Sound) (hconfig : m.config = other.config)
    (hgeometry : m.geometry = other.geometry)
    (hslices : ∀ l, m.geometry.contains l → ∀ s < m.geometry.byteEnables,
      m.sliceAt l s = other.sliceAt l s) : m = other := by
  have hbanks : ∀ i < m.geometry.bankCount, m.bankAt i = other.bankAt i := by
    intro i hi
    have hslots := h.slots i hi
    refine Bank.eq_of_slotAt ?_ fun slot hslot => ?_
    · rw [hslots, hother.slots i (hgeometry ▸ hi), hgeometry]
    · -- A slot belongs to the entry that its quotient by the slices of an entry names.
      have hindex : slot / m.geometry.byteEnables < m.geometry.entriesPerBank := by
        rw [Nat.div_lt_iff_lt_mul h.consistent.enables_pos, ← hslots]
        exact hslot
      have hslice := hslices ⟨slot / m.geometry.byteEnables, i⟩
        (Geometry.contains_iff.mpr ⟨hindex, hi⟩) (slot % m.geometry.byteEnables)
        (Nat.mod_lt _ h.consistent.enables_pos)
      simp only [sliceAt, ← hgeometry, Nat.div_add_mod'] at hslice
      exact hslice
  have hsize : m.banks.size = other.banks.size := by rw [h.banks, hother.banks, hgeometry]
  have hsame : m.banks = other.banks := by
    refine Array.ext hsize fun i hi hi' => ?_
    simpa [bankAt, hi, hi'] using hbanks i (h.banks ▸ hi)
  obtain ⟨config, geometry, banks⟩ := m
  obtain ⟨config', geometry', banks'⟩ := other
  cases hconfig
  cases hgeometry
  cases hsame
  rfl

theorem eq_of_wordAt (h : m.Sound) (hother : other.Sound) (hconfig : m.config = other.config)
    (hgeometry : m.geometry = other.geometry)
    (hwords : ∀ l, m.geometry.contains l → m.wordAt l = other.wordAt l) : m = other := by
  refine h.eq_of_sliceAt hother hconfig hgeometry fun l hl s hs => ?_
  rw [← h.field_wordAt hl hs, ← hother.field_wordAt (hgeometry ▸ hl) (hgeometry ▸ hs),
    hwords l hl, hgeometry]

theorem eq_of_readBits (h : m.Sound) (hother : other.Sound) (hconfig : m.config = other.config)
    (hgeometry : m.geometry = other.geometry)
    (hreads : ∀ l, m.geometry.contains l → m.readBits l = other.readBits l) : m = other := by
  refine h.eq_of_wordAt hother hconfig hgeometry fun l hl => ?_
  have hread := hreads l hl
  rw [h.readBits_eq_ok hl, hother.readBits_eq_ok (hgeometry ▸ hl), Except.ok.injEq] at hread
  exact hread

theorem clear_eq_clear (h : m.Sound) (hother : other.Sound) (hconfig : m.config = other.config)
    (hgeometry : m.geometry = other.geometry) : m.clear = other.clear := by
  refine h.clear.eq_of_sliceAt hother.clear hconfig hgeometry fun l hl s hs => ?_
  have hl' : other.geometry.contains l := hgeometry ▸ hl
  rw [sliceAt_clear h hl hs, sliceAt_clear hother hl' (hgeometry ▸ hs), hgeometry]

end Sound

/-- After any run of accesses a memory has the shape it was built with and can be read throughout.
Runs after which the entries read alike end in the same state, and after a clear it does not matter
what came before. -/
theorem run_canonical {config : Config} {g : Geometry} (hvalid : config.validate t.width = .ok g)
    (hfits : config.totalEntries * t.width < Size.limit) :
    ∃ start, Memory.new t config = .ok start ∧
      (∀ accesses : List (Access t), (start.run accesses).Shaped config g ∧
        ∀ l, g.contains l → (start.run accesses).Legible l) ∧
      (∀ first second : List (Access t),
        (∀ l, g.contains l → (start.run first).readBits l = (start.run second).readBits l) →
          start.run first = start.run second) ∧
      ∀ first second : List (Access t), (start.run first).clear = (start.run second).clear ∧
        ∀ (later : List (Access t)) (a : Access t),
          (start.run first).clear.run later = (start.run second).clear.run later ∧
            ((start.run first).clear.run later).perform a =
              ((start.run second).clear.run later).perform a := by
  obtain ⟨start, hnew, hsound, rfl, rfl, -⟩ :=
    new_eq_ok hvalid (Geometry.consistent_of_fits hvalid hfits)
  refine ⟨start, hnew, ?_, ?_, ?_⟩
  · intro accesses
    obtain ⟨hrun, hconfig, hgeometry⟩ := run_keeps hsound accesses
    rw [← hconfig, ← hgeometry]
    exact ⟨hrun.shaped, fun l hl => hrun.legible hl⟩
  · intro first second hreads
    obtain ⟨hfirst, hconfig, hgeometry⟩ := run_keeps hsound first
    obtain ⟨hsecond, hconfig', hgeometry'⟩ := run_keeps hsound second
    rw [← hgeometry] at hreads
    exact hfirst.eq_of_readBits hsecond (hconfig.trans hconfig'.symm)
      (hgeometry.trans hgeometry'.symm) hreads
  · intro first second
    obtain ⟨hfirst, hconfig, hgeometry⟩ := run_keeps hsound first
    obtain ⟨hsecond, hconfig', hgeometry'⟩ := run_keeps hsound second
    have hclear := hfirst.clear_eq_clear hsecond (hconfig.trans hconfig'.symm)
      (hgeometry.trans hgeometry'.symm)
    refine ⟨hclear, fun later a => ?_⟩
    rw [hclear]
    exact ⟨rfl, rfl⟩

theorem run_canonical_tags :
    (⟨6, 3, 4⟩ : Config).validate (ElementType.array .tag12 7).width = .ok ⟨2, 3, 4, 84⟩ ∧
      6 * (ElementType.array .tag12 7).width < Size.limit ∧
      ∃ start, Memory.new (.array .tag12 7) ⟨6, 3, 4⟩ = .ok start ∧
        (∀ accesses : List (Access (.array .tag12 7)),
          (start.run accesses).Shaped ⟨6, 3, 4⟩ ⟨2, 3, 4, 84⟩ ∧
            ∀ l, Geometry.contains ⟨2, 3, 4, 84⟩ l → (start.run accesses).Legible l) ∧
        (∀ first second : List (Access (.array .tag12 7)),
          (∀ l, Geometry.contains ⟨2, 3, 4, 84⟩ l →
            (start.run first).readBits l = (start.run second).readBits l) →
            start.run first = start.run second) ∧
        ∀ first second : List (Access (.array .tag12 7)),
          (start.run first).clear = (start.run second).clear ∧
            ∀ (later : List (Access (.array .tag12 7))) (a : Access (.array .tag12 7)),
              (start.run first).clear.run later = (start.run second).clear.run later ∧
                ((start.run first).clear.run later).perform a =
                  ((start.run second).clear.run later).perform a :=
  ⟨rfl, by decide, run_canonical rfl (by decide)⟩

end BankedStore.Memory
