import BankedStore.Proofs.Memory.Layout

/-!
# What the updates of a memory do

A fresh memory holds the default value in every entry, a cleared one holds zero
bits, and a write changes the slices of one entry that its mask chooses.  Each
update keeps a memory sound and leaves its configuration and geometry alone.
-/

namespace BankedStore.Memory

variable {t : ElementType}

/-! ## Fresh memories -/

private def uniform (t : ElementType) (config : Config) (g : Geometry) (bank : Bank) : Memory t :=
  ⟨config, g, Array.replicate g.bankCount bank⟩

private theorem bankAt_uniform {config : Config} {g : Geometry} (bank : Bank) {i : Nat}
    (hi : i < g.bankCount) : (uniform t config g bank).bankAt i = bank := by
  simp [uniform, bankAt, hi]

private def Repeats (g : Geometry) (word : Bits) (bank : Bank) : Prop :=
  bank.slots = g.entriesPerBank * g.byteEnables ∧
    ∀ slot < bank.slots,
      bank.slotAt slot = word.field (slot % g.byteEnables * g.sliceWidth) g.sliceWidth

private theorem exists_repeats {g : Geometry} (hg : g.Consistent) {word : Bits}
    (hword : word.width = g.wordWidth) :
    ∃ pattern bank, word.chunks g.sliceWidth = .ok pattern ∧
      Bank.new g.entriesPerBank pattern = .ok bank ∧ Repeats g word bank := by
  have hchunks := Bits.chunks_eq_ok (b := word) g.sliceWidth hg.sliceWidth_pos
    (hword ▸ hg.sliceWidth_dvd)
  rw [hword, hg.wordWidth_div] at hchunks
  obtain ⟨bank, hbank, hslots, hslotAt⟩ := Bank.new_eq_ok g.entriesPerBank
    ((List.range g.byteEnables).map fun i => word.field (i * g.sliceWidth) g.sliceWidth)
    (by simpa using hg.slots_lt)
  refine ⟨_, bank, hchunks, hbank, by simpa using hslots, ?_⟩
  intro slot hslot
  rw [hslotAt slot hslot]
  simp [Nat.mod_lt slot hg.enables_pos]

private theorem sound_uniform {config : Config} {g : Geometry}
    (hvalid : config.validate t.width = .ok g) (hg : g.Consistent) {word : Bits} {bank : Bank}
    (hbank : Repeats g word bank) : (uniform t config g bank).Sound where
  valid := hvalid
  consistent := hg
  banks := by simp [uniform]
  slots i hi := by
    have hi : i < g.bankCount := hi
    rw [bankAt_uniform bank hi]
    exact hbank.1
  slices i hi slot hslot := by
    have hi : i < g.bankCount := hi
    rw [bankAt_uniform bank hi] at hslot ⊢
    rw [hbank.2 slot hslot]
    exact ⟨rfl, Bits.wellFormed_field ..⟩

private theorem wordAt_uniform {config : Config} {g : Geometry} (hg : g.Consistent) {word : Bits}
    (hwidth : word.width = g.wordWidth) (hwf : word.WellFormed) {bank : Bank}
    (hbank : Repeats g word bank) {l : Location} (hl : g.contains l) :
    (uniform t config g bank).wordAt l = word := by
  obtain ⟨hindex, hbanks⟩ := Geometry.contains_iff.mp hl
  have hwindow := Geometry.window_le hindex
  have hslices : (List.range g.byteEnables).map ((uniform t config g bank).sliceAt l) =
      (List.range g.byteEnables).map fun s =>
        word.field (0 + s * g.sliceWidth) g.sliceWidth := by
    apply List.map_congr_left
    intro s hs
    rw [List.mem_range] at hs
    rw [sliceAt, bankAt_uniform bank hbanks]
    change bank.slotAt (l.index * g.byteEnables + s) = _
    rw [hbank.2 _ (by rw [hbank.1]; omega), Nat.mul_add_mod_of_lt hs, Nat.zero_add]
  change Bits.concat ((List.range g.byteEnables).map _) = word
  rw [hslices, Bits.concat_field_range, hg.slices, ← hwidth, Bits.field_self hwf]

theorem new_eq_ok {config : Config} {g : Geometry} (hvalid : config.validate t.width = .ok g)
    (hg : g.Consistent) :
    ∃ m, Memory.new t config = .ok m ∧ m.Sound ∧ m.config = config ∧ m.geometry = g ∧
      ∀ l, g.contains l → m.wordAt l = Value.pack t default := by
  have hword : (Value.pack t default).width = g.wordWidth :=
    (Value.width_pack t default).trans (Geometry.wordWidth_of_validate hvalid).symm
  obtain ⟨pattern, bank, hpattern, hbank, hrepeats⟩ := exists_repeats hg hword
  refine ⟨uniform t config g bank, ?_, sound_uniform hvalid hg hrepeats, rfl, rfl,
    fun l hl => wordAt_uniform hg hword (Value.wellFormed_pack t default) hrepeats hl⟩
  rw [Memory.new, hvalid]
  change (do
    let pattern ← Failure.ofFault ((Value.pack t default).chunks g.sliceWidth)
    let bank ← Failure.ofFault (Bank.new g.entriesPerBank pattern)
    return uniform t config g bank) = .ok (uniform t config g bank)
  rw [hpattern]
  change (do
    let bank ← Failure.ofFault (Bank.new g.entriesPerBank pattern)
    return uniform t config g bank) = .ok (uniform t config g bank)
  rw [hbank]
  rfl

/-! ## Clearing -/

theorem bankAt_clear (m : Memory t) {i : Nat} (hi : i < m.banks.size) :
    m.clear.bankAt i = (m.bankAt i).fill (.zero m.geometry.sliceWidth) := by
  simp [clear, bankAt, hi]

theorem Sound.clear {m : Memory t} (h : m.Sound) : m.clear.Sound := by
  have hbankAt : ∀ i < m.geometry.bankCount,
      m.clear.bankAt i = (m.bankAt i).fill (.zero m.geometry.sliceWidth) :=
    fun i hi => bankAt_clear m (by rw [h.banks]; exact hi)
  exact {
    valid := h.valid
    consistent := h.consistent
    banks := by simp [Memory.clear, h.banks]
    slots := fun i hi => by
      rw [hbankAt i hi, Bank.slots_fill]
      exact h.slots i hi
    slices := fun i hi slot hslot => by
      rw [hbankAt i hi] at hslot ⊢
      rw [Bank.slotAt_fill _ (by simpa using hslot)]
      exact ⟨rfl, Bits.wellFormed_zero _⟩ }

theorem sliceAt_clear {m : Memory t} (h : m.Sound) {l : Location} {s : Nat}
    (hl : m.geometry.contains l) (hs : s < m.geometry.byteEnables) :
    m.clear.sliceAt l s = .zero m.geometry.sliceWidth := by
  have hwindow := h.window_le hl
  have hbank : l.bank < m.banks.size := by
    rw [h.banks]
    exact (Geometry.contains_iff.mp hl).2
  rw [sliceAt, bankAt_clear m hbank]
  exact Bank.slotAt_fill _ (by change l.index * m.geometry.byteEnables + s < _; omega)

theorem toNat_wordAt_clear {m : Memory t} (h : m.Sound) {l : Location}
    (hl : m.geometry.contains l) : (m.clear.wordAt l).toNat = 0 := by
  have hwf := h.clear.wellFormed_wordAt hl
  apply Nat.eq_of_testBit_eq
  intro i
  rw [Nat.zero_testBit]
  by_cases hi : i < t.width
  · rw [h.clear.testBit_wordAt hl hi, sliceAt_clear h hl, Bits.toNat_zero, Nat.zero_testBit]
    exact h.slice_lt hi
  · exact Bits.wellFormed_iff.mp hwf i (by rw [h.clear.width_wordAt hl]; omega)

/-! ## Writes -/

private theorem slot_inj {enables i j s r : Nat} (hs : s < enables) (hr : r < enables) :
    i * enables + s = j * enables + r ↔ i = j ∧ s = r := by
  constructor
  · intro heq
    have hdiv := congrArg (· / enables) heq
    have hmod := congrArg (· % enables) heq
    simp only [mul_add_div_of_lt hs, mul_add_div_of_lt hr, Nat.mul_add_mod_of_lt hs,
      Nat.mul_add_mod_of_lt hr] at hdiv hmod
    exact ⟨hdiv, hmod⟩
  · rintro ⟨rfl, rfl⟩
    rfl

theorem bankAt_set {m : Memory t} {i : Nat} (bank : Bank) (hi : i < m.banks.size) (j : Nat) :
    ({ m with banks := m.banks.setIfInBounds i bank } : Memory t).bankAt j =
      if j = i then bank else m.bankAt j := by
  by_cases hj : j = i
  · subst hj
    simp [bankAt, hi]
  · simp [bankAt, hj, Array.getElem?_setIfInBounds_ne (Ne.symm hj)]

structure Written (m : Memory t) (l : Location) (word : Bits) (mask : SliceMask)
    (next : Memory t) : Prop where
  sound : next.Sound
  config : next.config = m.config
  geometry : next.geometry = m.geometry
  slices : ∀ l' s, m.geometry.contains l' → s < m.geometry.byteEnables →
    next.sliceAt l' s =
      if l' = l ∧ mask.allows s then
        word.field (s * m.geometry.sliceWidth) m.geometry.sliceWidth
      else m.sliceAt l' s

theorem Sound.set {m : Memory t} (h : m.Sound) {i : Nat} (hi : i < m.geometry.bankCount)
    {bank : Bank} (hslots : bank.slots = (m.bankAt i).slots)
    (hslices : ∀ slot < bank.slots,
      (bank.slotAt slot).width = m.geometry.sliceWidth ∧ (bank.slotAt slot).WellFormed) :
    ({ m with banks := m.banks.setIfInBounds i bank } : Memory t).Sound := by
  have hbankAt := bankAt_set bank (h.banks ▸ hi)
  exact {
    valid := h.valid
    consistent := h.consistent
    banks := by simpa using h.banks
    slots := fun j hj => by
      rw [hbankAt]
      split
      · subst j
        rw [hslots]
        exact h.slots i hi
      · exact h.slots j hj
    slices := fun j hj slot hslot => by
      rw [hbankAt] at hslot ⊢
      split at hslot
      · rw [if_pos ‹_›]
        exact hslices slot hslot
      · rw [if_neg ‹_›]
        exact h.slices j hj slot hslot }

private structure Committed (m : Memory t) (l : Location) (word : Bits) (mask : SliceMask)
    (bank : Bank) : Prop where
  slots : bank.slots = (m.bankAt l.bank).slots
  slotAt : ∀ slot < bank.slots, bank.slotAt slot =
    if l.index * m.geometry.byteEnables ≤ slot ∧
        mask.allows (slot - l.index * m.geometry.byteEnables) then
      word.field ((slot - l.index * m.geometry.byteEnables) * m.geometry.sliceWidth)
        m.geometry.sliceWidth
    else (m.bankAt l.bank).slotAt slot

private theorem Committed.slices {m : Memory t} (h : m.Sound) {l : Location} {word : Bits}
    {mask : SliceMask} {bank : Bank} (hl : m.geometry.contains l)
    (hbank : Committed m l word mask bank) :
    ∀ slot < bank.slots,
      (bank.slotAt slot).width = m.geometry.sliceWidth ∧ (bank.slotAt slot).WellFormed := by
  intro slot hslot
  rw [hbank.slotAt slot hslot]
  split
  · exact ⟨rfl, Bits.wellFormed_field ..⟩
  · rw [hbank.slots] at hslot
    exact h.slices l.bank (Geometry.contains_iff.mp hl).2 slot hslot

private theorem Committed.slotAt_entry {m : Memory t} (h : m.Sound) {l l' : Location}
    {word : Bits} {mask : SliceMask} {bank : Bank} (hbank : Committed m l word mask bank)
    (hmask : mask.length = m.geometry.byteEnables) (hl' : m.geometry.contains l')
    (hsame : l'.bank = l.bank) {s : Nat} (hs : s < m.geometry.byteEnables) :
    bank.slotAt (l'.index * m.geometry.byteEnables + s) =
      if l' = l ∧ mask.allows s then
        word.field (s * m.geometry.sliceWidth) m.geometry.sliceWidth
      else m.sliceAt l' s := by
  have hwindow := h.window_le hl'
  rw [hsame, ← hbank.slots] at hwindow
  rw [hbank.slotAt _ (by omega)]
  by_cases hentry : l' = l
  · subst hentry
    simp [sliceAt]
  · -- Another entry of the same bank: none of its slots is in the window.
    have hindices : l'.index ≠ l.index := by
      intro heq
      apply hentry
      cases l
      cases l'
      simp_all
    rw [if_neg, if_neg fun hc => hentry hc.1, sliceAt, hsame]
    rintro ⟨hle, hallow⟩
    have hlt := SliceMask.lt_length_of_allows hallow
    rw [hmask] at hlt
    exact hindices ((slot_inj hs hlt).mp (by omega)).1

private theorem Committed.written {m : Memory t} (h : m.Sound) {l : Location} {word : Bits}
    {mask : SliceMask} {bank : Bank} (hbank : Committed m l word mask bank)
    (hl : m.geometry.contains l) (hmask : mask.length = m.geometry.byteEnables) :
    m.Written l word mask { m with banks := m.banks.setIfInBounds l.bank bank } where
  sound := h.set (Geometry.contains_iff.mp hl).2 hbank.slots (hbank.slices h hl)
  config := rfl
  geometry := rfl
  slices l' s hl' hs := by
    rw [sliceAt, bankAt_set bank (h.banks ▸ (Geometry.contains_iff.mp hl).2)]
    split
    · exact hbank.slotAt_entry h hmask hl' ‹_› hs
    · rw [if_neg fun hc => ‹l'.bank ≠ l.bank› (congrArg Location.bank hc.1)]
      rfl

theorem writeBits_eq_commit {m : Memory t} (h : m.Sound) {l : Location} {word : Bits}
    (mask : SliceMask) (hl : m.geometry.contains l) (hword : word.width = m.geometry.wordWidth)
    (hmask : mask.length = m.geometry.byteEnables) :
    m.writeBits l word mask = do
      let written ← (m.bankAt l.bank).commit (l.index * m.geometry.byteEnables) mask
        ((List.range m.geometry.byteEnables).map fun i =>
          word.field (i * m.geometry.sliceWidth) m.geometry.sliceWidth)
      return { m with banks := m.banks.setIfInBounds l.bank written } := by
  obtain ⟨hindex, hbank⟩ := Geometry.contains_iff.mp hl
  have hchunks := Bits.chunks_eq_ok (b := word) m.geometry.sliceWidth h.consistent.sliceWidth_pos
    (hword ▸ h.consistent.sliceWidth_dvd)
  rw [hword, h.consistent.wordWidth_div] at hchunks
  rw [writeBits, Sound.expectInside_eq_ok hl, Value.expectWidth_eq_ok hword]
  change (if mask.length = m.geometry.byteEnables then _ else _) = _
  rw [if_pos hmask, h.consistent.slot_eq_ok hindex h.consistent.enables_pos, h.bank_eq_ok hbank,
    hchunks]
  rfl

theorem exists_writeBits_eq_ok {m : Memory t} (h : m.Sound) {l : Location} {word : Bits}
    (mask : SliceMask) (hl : m.geometry.contains l) (hword : word.width = m.geometry.wordWidth)
    (hmask : mask.length = m.geometry.byteEnables) :
    ∃ next, m.writeBits l word mask = .ok next ∧ m.Written l word mask next := by
  obtain ⟨hindex, hbank⟩ := Geometry.contains_iff.mp hl
  obtain ⟨bank, hcommit, hslots, hslotAt⟩ := Bank.commit_eq_ok (m.bankAt l.bank)
    (l.index * m.geometry.byteEnables) mask
    ((List.range m.geometry.byteEnables).map fun i =>
      word.field (i * m.geometry.sliceWidth) m.geometry.sliceWidth)
    (by rw [hmask]; exact h.window_le hl) (h.slots_lt hbank) (by simp [hmask])
  have hcommitted : Committed m l word mask bank := by
    refine ⟨hslots, ?_⟩
    intro slot hslot
    rw [hslotAt slot (hslots ▸ hslot)]
    by_cases hchosen : l.index * m.geometry.byteEnables ≤ slot ∧
        mask.allows (slot - l.index * m.geometry.byteEnables)
    · have hlt := SliceMask.lt_length_of_allows hchosen.2
      rw [hmask] at hlt
      rw [if_pos hchosen, if_pos hchosen]
      simp [hlt]
    · rw [if_neg hchosen, if_neg hchosen]
  refine ⟨_, ?_, hcommitted.written h hl hmask⟩
  rw [writeBits_eq_commit h mask hl hword hmask, hcommit]
  rfl

end BankedStore.Memory
