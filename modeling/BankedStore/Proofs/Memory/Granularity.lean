import BankedStore.Proofs.Memory.Shadow

/-!
# Coarse and fine slices

The slices of a memory may be cut into equal parts.  A mask over the coarse slices
then becomes one over the parts, in which every part goes with its slice.  A run on
the coarse memory and the same run on the fine one, with its masks spread over the
parts, are two runs of one shadow, so they succeed and fail together and read alike.
Whole words look the same in every cut.
-/

namespace BankedStore

/-! ## Masks -/

namespace SliceMask

def spread (m : SliceMask) (parts : Nat) : SliceMask :=
  ofFn (m.length * parts) fun i => m.allows (i / parts)

theorem length_spread (m : SliceMask) (parts : Nat) :
    (m.spread parts).length = m.length * parts := rfl

theorem allows_spread (m : SliceMask) {parts : Nat} (hpos : 0 < parts) (i : Nat) :
    (m.spread parts).allows i = m.allows (i / parts) := by
  by_cases hi : i < m.length * parts
  · exact allows_ofFn _ hi
  · rw [allows_of_length_le (Nat.le_of_not_lt hi), allows_of_length_le]
    rw [Nat.le_div_iff_mul_le hpos]
    omega

theorem spread_all (n : Nat) {parts : Nat} (hpos : 0 < parts) :
    (all n).spread parts = all (n * parts) := by
  refine eq_of_allows rfl fun i _ => ?_
  rw [allows_spread _ hpos, allows_all, allows_all]
  simp [Nat.div_lt_iff_lt_mul hpos]

end SliceMask

theorem splice_spread {sliceWidth parts : Nat} (hwidth : 0 < sliceWidth) (hparts : 0 < parts)
    (slices : Nat) (mask : SliceMask) (old new : Nat) :
    splice sliceWidth (slices * parts) (mask.spread parts) old new =
      splice (sliceWidth * parts) slices mask old new := by
  refine Nat.eq_of_testBit_eq fun i => ?_
  have hslice : i / sliceWidth < slices * parts ↔ i / (sliceWidth * parts) < slices := by
    rw [← Nat.div_lt_iff_lt_mul hparts, Nat.div_div_eq_div_mul]
  rw [testBit_splice hwidth, testBit_splice (Nat.mul_pos hwidth hparts),
    SliceMask.allows_spread _ hparts, Nat.div_div_eq_div_mul]
  simp only [hslice]

/-! ## Geometries -/

/-- The two differ only in that the first has each slice of the second in as many parts. -/
structure Geometry.Refines (fine coarse : Geometry) (parts : Nat) : Prop where
  parts_pos : 0 < parts
  sliceWidth_pos : 0 < fine.sliceWidth
  entriesPerBank : fine.entriesPerBank = coarse.entriesPerBank
  bankCount : fine.bankCount = coarse.bankCount
  wordWidth : fine.wordWidth = coarse.wordWidth
  byteEnables : fine.byteEnables = coarse.byteEnables * parts
  sliceWidth : coarse.sliceWidth = fine.sliceWidth * parts

theorem Geometry.refines_of_validate {entries banks slices parts wordWidth : Nat}
    {coarse fine : Geometry}
    (hcoarse : (⟨entries, banks, slices⟩ : Config).validate wordWidth = .ok coarse)
    (hfine : (⟨entries, banks, slices * parts⟩ : Config).validate wordWidth = .ok fine) :
    fine.Refines coarse parts := by
  obtain ⟨-, -, hslices, hword, -, -, rfl⟩ := Config.validate_eq_ok_iff.mp hcoarse
  obtain ⟨-, -, henables, -, -, hdvd, rfl⟩ := Config.validate_eq_ok_iff.mp hfine
  have hparts : 0 < parts := Nat.pos_of_mul_pos_left henables
  exact {
    parts_pos := hparts
    sliceWidth_pos := Nat.div_pos (Nat.le_of_dvd hword hdvd) henables
    entriesPerBank := rfl
    bankCount := rfl
    wordWidth := rfl
    byteEnables := rfl
    sliceWidth := by
      obtain ⟨width, rfl⟩ := hdvd
      change slices * parts * width / slices = slices * parts * width / (slices * parts) * parts
      rw [Nat.mul_div_cancel_left _ henables, Nat.mul_assoc, Nat.mul_div_cancel_left _ hslices,
        Nat.mul_comm] }

theorem Geometry.Refines.contains {fine coarse : Geometry} {parts : Nat}
    (h : fine.Refines coarse parts) (l : Location) : fine.contains l = coarse.contains l := by
  rw [Geometry.contains, Geometry.contains, h.entriesPerBank, h.bankCount]

/-! ## Accesses -/

variable {t : ElementType}

namespace Access

def spread (parts : Nat) : Access t → Access t
  | write l value mask enable => write l value (mask.spread parts) enable
  | store l value => store l value
  | writeBits l word mask => writeBits l word (mask.spread parts)
  | tryWrite l value mask enable => tryWrite l value (mask.spread parts) enable
  | clear => clear
  | entryWrite l value mask enable => entryWrite l value (mask.spread parts) enable
  | entryStore l value => entryStore l value
  | entryClear => entryClear

def whole (slices : Nat) : Access t → Access t
  | write l value _ enable => write l value (.all slices) enable
  | store l value => store l value
  | writeBits l word _ => writeBits l word (.all slices)
  | tryWrite l value _ enable => tryWrite l value (.all slices) enable
  | clear => clear
  | entryWrite l value _ enable => entryWrite l value (.all slices) enable
  | entryStore l value => entryStore l value
  | entryClear => entryClear

theorem spread_whole (slices : Nat) {parts : Nat} (hpos : 0 < parts) (a : Access t) :
    (a.whole slices).spread parts = a.whole (slices * parts) := by
  cases a <;> simp [whole, spread, SliceMask.spread_all _ hpos]

structure Agrees (g : Geometry) (a : Access t) (g' : Geometry) (a' : Access t) : Prop where
  allowed : a.Allowed g ↔ a'.Allowed g'
  update : ∀ shadow : Shadow, shadow.update g (a.change g) = shadow.update g' (a'.change g')

theorem Agrees.symm {g g' : Geometry} {a a' : Access t} (h : a.Agrees g g' a') :
    a'.Agrees g' g a :=
  ⟨h.allowed.symm, fun shadow => (h.update shadow).symm⟩

theorem Agrees.trans {g g' g'' : Geometry} {a a' a'' : Access t} (h : a.Agrees g g' a')
    (h' : a'.Agrees g' g'' a'') : a.Agrees g g'' a'' :=
  ⟨h.allowed.trans h'.allowed, fun shadow => (h.update shadow).trans (h'.update shadow)⟩

section Spread

variable {fine coarse : Geometry} {parts : Nat}

theorem length_spread_eq_iff (h : fine.Refines coarse parts) (mask : SliceMask) :
    (mask.spread parts).length = fine.byteEnables ↔ mask.length = coarse.byteEnables := by
  rw [SliceMask.length_spread, h.byteEnables, Nat.mul_left_inj h.parts_pos.ne']

theorem update_commit_spread (h : fine.Refines coarse parts) (shadow : Shadow) (l : Location)
    (word : Bits) (mask : SliceMask) :
    shadow.update fine (.commit l word (mask.spread parts)) =
      shadow.update coarse (.commit l word mask) := by
  funext l'
  simp only [Shadow.update, h.byteEnables, h.sliceWidth]
  rw [splice_spread h.sliceWidth_pos h.parts_pos]

theorem update_store_spread (h : fine.Refines coarse parts) (shadow : Shadow) (l : Location)
    (word : Bits) :
    shadow.update fine (.commit l word (.all fine.byteEnables)) =
      shadow.update coarse (.commit l word (.all coarse.byteEnables)) := by
  rw [h.byteEnables, ← SliceMask.spread_all _ h.parts_pos]
  exact update_commit_spread h shadow l word _

theorem agrees_spread (h : fine.Refines coarse parts) (a : Access t) :
    (a.spread parts).Agrees fine coarse a := by
  cases a with
  | write l value mask enable | tryWrite l value mask enable | entryWrite l value mask enable =>
      refine ⟨?_, fun shadow => ?_⟩
      · simp only [spread, Allowed, h.contains, length_spread_eq_iff h]
      · cases enable with
        | false => rfl
        | true => exact update_commit_spread h shadow l _ mask
  | writeBits l word mask =>
      refine ⟨?_, fun shadow => update_commit_spread h shadow l word mask⟩
      simp only [spread, Allowed, h.contains, h.wordWidth, length_spread_eq_iff h]
  | store l value | entryStore l value =>
      refine ⟨?_, fun shadow => update_store_spread h shadow l _⟩
      simp only [spread, Allowed, h.contains]
  | clear | entryClear => exact ⟨Iff.rfl, fun _ => rfl⟩

theorem agrees_uncut {entries banks slices : Nat} {g : Geometry}
    (hvalid : (⟨entries, banks, slices⟩ : Config).validate t.width = .ok g) (a : Access t) :
    (a.whole slices).Agrees g ⟨entries / banks, banks, 1, t.width⟩ (a.whole 1) := by
  obtain ⟨hentries, hbanks, hpos, hword, hsplit, -, -⟩ := Config.validate_eq_ok_iff.mp hvalid
  have huncut : (⟨entries, banks, 1⟩ : Config).validate t.width =
      .ok ⟨entries / banks, banks, 1, t.width⟩ :=
    Config.validate_eq_ok_iff.mpr
      ⟨hentries, hbanks, Nat.one_pos, hword, hsplit, Nat.one_dvd _, rfl⟩
  have hrefines : g.Refines ⟨entries / banks, banks, 1, t.width⟩ slices :=
    Geometry.refines_of_validate huncut (by rwa [Nat.one_mul])
  have hagrees := agrees_spread hrefines (a.whole 1)
  rwa [spread_whole 1 hpos, Nat.one_mul] at hagrees

end Spread

end Access

/-! ## Runs -/

namespace Shadow

variable {g g' : Geometry}

theorem after_agrees {a a' : Access t} (h : a.Agrees g g' a') (shadow : Shadow) :
    shadow.after g a = shadow.after g' a' := by
  rw [after, after, h.update]
  simp only [h.allowed]

theorem run_agrees {first second : Access t → Access t}
    (h : ∀ a, (first a).Agrees g g' (second a)) (shadow : Shadow) (accesses : List (Access t)) :
    shadow.run g (accesses.map first) = shadow.run g' (accesses.map second) := by
  induction accesses generalizing shadow with
  | nil => rfl
  | cons a accesses ih =>
      change (shadow.after g (first a)).run g (accesses.map first) =
        (shadow.after g' (second a)).run g' (accesses.map second)
      rw [after_agrees (h a), ih]

end Shadow

def Memory.ReadAlike (m other : Memory t) : Prop :=
  ∀ l, m.geometry.contains l → ∃ word value, m.readBits l = .ok word ∧
    other.readBits l = .ok word ∧ m.read l = .ok value ∧ other.read l = .ok value

theorem Memory.readAlike_of_tracks {m other : Memory t} (h : m.Sound) (hother : other.Sound)
    (hinside : ∀ l, m.geometry.contains l = other.geometry.contains l) {shadow : Shadow}
    (htracks : m.Tracks shadow) (htracks' : other.Tracks shadow) : m.ReadAlike other := by
  intro l hl
  have hl' : other.geometry.contains l := hinside l ▸ hl
  have hword : other.wordAt l = m.wordAt l := by
    refine Bits.toNat_injective ?_ ?_
    · rw [h.width_wordAt hl, hother.width_wordAt hl']
    · rw [htracks l hl, htracks' l hl']
  obtain ⟨value, hread, -⟩ := h.exists_read_eq_ok hl
  have hbits := h.readBits_eq_ok hl
  have hbits' := hother.readBits_eq_ok hl'
  rw [hword] at hbits'
  refine ⟨m.wordAt l, value, hbits, hbits', hread, ?_⟩
  rw [read, hbits']
  rw [read, hbits] at hread
  exact hread

/-- Fresh memories of the two configurations, the accesses of any list made on the first in one form
and on the second in another: they succeed and fail together, and the memories read alike. -/
def Config.RunAlike (t : ElementType) (config other : Config)
    (first second : Access t → Access t) : Prop :=
  ∃ m m', Memory.new t config = .ok m ∧ Memory.new t other = .ok m' ∧
    ∀ accesses : List (Access t),
      (∀ a, (∃ next, (m.run (accesses.map first)).perform (first a) = .ok next) ↔
        ∃ next, (m'.run (accesses.map second)).perform (second a) = .ok next) ∧
      (m.run (accesses.map first)).ReadAlike (m'.run (accesses.map second))

theorem Config.runAlike_of_agrees {entries banks slices slices' : Nat} {g g' : Geometry}
    (hvalid : (⟨entries, banks, slices⟩ : Config).validate t.width = .ok g)
    (hvalid' : (⟨entries, banks, slices'⟩ : Config).validate t.width = .ok g')
    (hfits : entries * t.width < Size.limit) {first second : Access t → Access t}
    (h : ∀ a, (first a).Agrees g g' (second a)) :
    Config.RunAlike t ⟨entries, banks, slices⟩ ⟨entries, banks, slices'⟩ first second := by
  have hcontains : ∀ l, g.contains l = g'.contains l := by
    obtain ⟨-, -, -, -, -, -, rfl⟩ := Config.validate_eq_ok_iff.mp hvalid
    obtain ⟨-, -, -, -, -, -, rfl⟩ := Config.validate_eq_ok_iff.mp hvalid'
    exact fun l => rfl
  obtain ⟨m, hnew, hsound, -, rfl, hfresh⟩ :=
    Memory.new_eq_ok hvalid (Geometry.consistent_of_fits hvalid hfits)
  obtain ⟨m', hnew', hsound', -, rfl, hfresh'⟩ :=
    Memory.new_eq_ok hvalid' (Geometry.consistent_of_fits hvalid' hfits)
  have htracks : m.Tracks (Shadow.fresh t) := fun l hl => congrArg Bits.toNat (hfresh l hl)
  have htracks' : m'.Tracks (Shadow.fresh t) := fun l hl => congrArg Bits.toNat (hfresh' l hl)
  refine ⟨m, m', hnew, hnew', fun accesses => ?_⟩
  obtain ⟨hrun, -, hgeometry⟩ := Memory.run_keeps hsound (accesses.map first)
  obtain ⟨hrun', -, hgeometry'⟩ := Memory.run_keeps hsound' (accesses.map second)
  constructor
  · intro a
    rw [Memory.perform_isOk_iff hrun, Memory.perform_isOk_iff hrun', hgeometry, hgeometry']
    exact (h a).allowed
  · have hshadow := Memory.run_tracks hsound htracks (accesses.map first)
    rw [Shadow.run_agrees h] at hshadow
    refine Memory.readAlike_of_tracks hrun hrun' (fun l => ?_) hshadow
      (Memory.run_tracks hsound' htracks' (accesses.map second))
    rw [hgeometry, hgeometry', hcontains]

/-- A run with its masks spread over the parts of the slices does on the fine memory what it does on
the coarse one, and a run under full masks does the same however the words are cut. -/
theorem Config.runAlike_spread (t : ElementType) {entries : Nat}
    (hfits : entries * t.width < Size.limit) (banks : Nat) :
    (∀ slices parts coarse fine,
      (⟨entries, banks, slices⟩ : Config).validate t.width = .ok coarse →
      (⟨entries, banks, slices * parts⟩ : Config).validate t.width = .ok fine →
      Config.RunAlike t ⟨entries, banks, slices⟩ ⟨entries, banks, slices * parts⟩ id
        (.spread parts)) ∧
    ∀ first second g g',
      (⟨entries, banks, first⟩ : Config).validate t.width = .ok g →
      (⟨entries, banks, second⟩ : Config).validate t.width = .ok g' →
      Config.RunAlike t ⟨entries, banks, first⟩ ⟨entries, banks, second⟩ (.whole first)
        (.whole second) := by
  constructor
  · intro slices parts coarse fine hcoarse hfine
    exact runAlike_of_agrees hcoarse hfine hfits fun a =>
      (Access.agrees_spread (Geometry.refines_of_validate hcoarse hfine) a).symm
  · intro first second g g' hfirst hsecond
    exact runAlike_of_agrees hfirst hsecond hfits fun a =>
      (Access.agrees_uncut hfirst a).trans (Access.agrees_uncut hsecond a).symm

theorem Config.runAlike_spread_tags :
    6 * ElementType.tag12.width < Size.limit ∧
      (⟨6, 3, 2⟩ : Config).validate ElementType.tag12.width = .ok ⟨2, 3, 2, 12⟩ ∧
      (⟨6, 3, 2 * 3⟩ : Config).validate ElementType.tag12.width = .ok ⟨2, 3, 6, 12⟩ ∧
      Config.RunAlike .tag12 ⟨6, 3, 2⟩ ⟨6, 3, 2 * 3⟩ id (.spread 3) ∧
      (⟨6, 3, 3⟩ : Config).validate ElementType.tag12.width = .ok ⟨2, 3, 3, 12⟩ ∧
      (⟨6, 3, 4⟩ : Config).validate ElementType.tag12.width = .ok ⟨2, 3, 4, 12⟩ ∧
      Config.RunAlike .tag12 ⟨6, 3, 3⟩ ⟨6, 3, 4⟩ (.whole 3) (.whole 4) := by
  have hfits : 6 * ElementType.tag12.width < Size.limit := by decide
  obtain ⟨hspread, hwhole⟩ := Config.runAlike_spread .tag12 hfits 3
  exact ⟨hfits, rfl, rfl, hspread 2 3 _ _ rfl rfl, rfl, rfl, hwhole 3 4 _ _ rfl rfl⟩

end BankedStore
