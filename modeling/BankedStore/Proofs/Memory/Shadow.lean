import BankedStore.Proofs.Memory.Access

/-!
# A memory and its shadow

The shadow of a memory is a number for each entry, without banks, slots or slices.
It starts at the default value, becomes zero when the memory is cleared, and a
write replaces in one number the bit fields that the mask chooses.  After any run
of accesses the words of the memory are the numbers of the shadow.
-/

namespace BankedStore

def replaceField (low width old new : Nat) : Nat :=
  old % 2 ^ low + 2 ^ low * (new / 2 ^ low % 2 ^ width + 2 ^ width * (old / 2 ^ (low + width)))

theorem testBit_replaceField (low width old new i : Nat) :
    (replaceField low width old new).testBit i =
      if low ≤ i ∧ i < low + width then new.testBit i else old.testBit i := by
  have hlow : old % 2 ^ low < 2 ^ low := Nat.mod_lt _ (Nat.two_pow_pos low)
  have hfield : new / 2 ^ low % 2 ^ width < 2 ^ width := Nat.mod_lt _ (Nat.two_pow_pos width)
  rw [replaceField, Nat.add_comm, Nat.testBit_two_pow_mul_add _ hlow,
    Nat.add_comm (new / 2 ^ low % 2 ^ width), Nat.testBit_two_pow_mul_add _ hfield]
  by_cases hbelow : i < low
  · rw [if_pos hbelow, if_neg (by omega), Nat.testBit_mod_two_pow]
    simp [hbelow]
  · rw [if_neg hbelow]
    by_cases hinside : i - low < width
    · rw [if_pos hinside, if_pos (by omega), Nat.testBit_mod_two_pow, Nat.testBit_div_two_pow,
        Nat.sub_add_cancel (by omega)]
      simp [hinside]
    · rw [if_neg hinside, if_neg (by omega), Nat.testBit_div_two_pow]
      congr 1
      omega

/-- The chosen ones among the first `slices` fields of one width are taken from the new number. -/
def splice (sliceWidth slices : Nat) (mask : SliceMask) (old new : Nat) : Nat :=
  (List.range slices).foldl
    (fun word s =>
      if mask.allows s then replaceField (s * sliceWidth) sliceWidth word new else word) old

theorem testBit_splice {sliceWidth : Nat} (hpos : 0 < sliceWidth) (slices : Nat)
    (mask : SliceMask) (old new i : Nat) :
    (splice sliceWidth slices mask old new).testBit i =
      if i / sliceWidth < slices ∧ mask.allows (i / sliceWidth) then new.testBit i
      else old.testBit i := by
  induction slices with
  | zero => simp [splice]
  | succ slices ih =>
      have hfield : slices * sliceWidth ≤ i ∧ i < slices * sliceWidth + sliceWidth ↔
          i / sliceWidth = slices := by
        rw [Nat.div_eq_iff hpos]
        omega
      rw [splice, List.range_succ, List.foldl_append]
      change (if mask.allows slices then
        replaceField (slices * sliceWidth) sliceWidth (splice sliceWidth slices mask old new) new
        else splice sliceWidth slices mask old new).testBit i = _
      by_cases hallow : mask.allows slices
      · rw [if_pos hallow, testBit_replaceField, ih]
        by_cases hhere : i / sliceWidth = slices
        · rw [if_pos (hfield.mpr hhere), if_pos ⟨by omega, by rw [hhere]; exact hallow⟩]
        · rw [if_neg fun h => hhere (hfield.mp h)]
          congr 1
          simp only [eq_iff_iff]
          constructor <;> rintro ⟨h1, h2⟩ <;> exact ⟨by omega, h2⟩
      · rw [if_neg hallow, ih]
        congr 1
        simp only [eq_iff_iff]
        constructor
        · rintro ⟨h1, h2⟩
          exact ⟨by omega, h2⟩
        · rintro ⟨h1, h2⟩
          have hne : i / sliceWidth ≠ slices := fun h => hallow (h ▸ h2)
          exact ⟨by omega, h2⟩

abbrev Shadow := Location → Nat

namespace Shadow

variable {t : ElementType}

def fresh (t : ElementType) : Shadow :=
  fun _ => (Value.pack t default).toNat

def update (g : Geometry) (shadow : Shadow) : Change → Shadow
  | .nothing => shadow
  | .clear => fun _ => 0
  | .commit l word mask => fun l' =>
      if l' = l then splice g.sliceWidth g.byteEnables mask (shadow l') word.toNat else shadow l'

def after (g : Geometry) (shadow : Shadow) (a : Access t) : Shadow :=
  if a.Allowed g then shadow.update g (a.change g) else shadow

def run (g : Geometry) (shadow : Shadow) (accesses : List (Access t)) : Shadow :=
  accesses.foldl (after g) shadow

end Shadow

namespace Memory

variable {t : ElementType}

def Tracks (m : Memory t) (shadow : Shadow) : Prop :=
  ∀ l, m.geometry.contains l → (m.wordAt l).toNat = shadow l

theorem toNat_wordAt_written {m next : Memory t} (h : m.Sound) {l l' : Location} {word : Bits}
    {mask : SliceMask} (hw : m.Written l word mask next) (hl' : m.geometry.contains l') :
    (next.wordAt l').toNat =
      if l' = l then
        splice m.geometry.sliceWidth m.geometry.byteEnables mask (m.wordAt l').toNat word.toNat
      else (m.wordAt l').toNat := by
  have hnext : next.geometry.contains l' := by rw [hw.geometry]; exact hl'
  have hpos := h.consistent.sliceWidth_pos
  have hbit : ∀ i < t.width, (next.wordAt l').toNat.testBit i =
      if l' = l ∧ mask.allows (i / m.geometry.sliceWidth) then word.toNat.testBit i
      else (m.wordAt l').toNat.testBit i := by
    intro i hi
    rw [hw.sound.testBit_wordAt hnext hi, h.testBit_wordAt hl' hi, hw.geometry,
      hw.slices l' _ hl' (h.slice_lt hi)]
    split
    · rw [Bits.testBit_toNat_field, Nat.mul_comm, Nat.div_add_mod]
      simp [Nat.mod_lt _ hpos]
    · rfl
  have hpadding : ∀ i, t.width ≤ i → (next.wordAt l').toNat.testBit i = false ∧
      (m.wordAt l').toNat.testBit i = false := by
    intro i hi
    exact ⟨Bits.wellFormed_iff.mp (hw.sound.wellFormed_wordAt hnext) i
        (by rw [hw.sound.width_wordAt hnext]; exact hi),
      Bits.wellFormed_iff.mp (h.wellFormed_wordAt hl') i
        (by rw [h.width_wordAt hl']; exact hi)⟩
  apply Nat.eq_of_testBit_eq
  intro i
  by_cases hi : i < t.width
  · rw [hbit i hi]
    by_cases hsame : l' = l
    · simp only [hsame, true_and, if_true]
      rw [testBit_splice hpos]
      simp [h.slice_lt hi]
    · simp [hsame]
  · have hslice : ¬ i / m.geometry.sliceWidth < m.geometry.byteEnables := by
      rw [Nat.div_lt_iff_lt_mul hpos, h.consistent.slices, h.wordWidth]
      exact hi
    obtain ⟨hnew, hold⟩ := hpadding i (by omega)
    rw [hnew]
    split
    · rw [testBit_splice hpos, if_neg fun hc => hslice hc.1, hold]
    · rw [hold]

theorem Changed.tracks {m next : Memory t} (h : m.Sound) {c : Change} (hc : m.Changed c next)
    {shadow : Shadow} (htracks : m.Tracks shadow) :
    next.Tracks (shadow.update m.geometry c) := by
  intro l hl
  have hl : m.geometry.contains l := by rw [← (hc.keeps h).2.2]; exact hl
  cases c with
  | nothing =>
      cases hc
      exact htracks l hl
  | clear =>
      cases hc
      exact toNat_wordAt_clear h hl
  | commit l' word mask =>
      rw [toNat_wordAt_written h hc hl, htracks l hl]
      rfl

theorem after_tracks {m : Memory t} (h : m.Sound) {shadow : Shadow} (htracks : m.Tracks shadow)
    (a : Access t) : (m.after a).Tracks (shadow.after m.geometry a) := by
  unfold Shadow.after
  by_cases ha : a.Allowed m.geometry
  · rw [if_pos ha]
    exact (changed_after h ha).tracks h htracks
  · rw [if_neg ha, after_eq_of_not_allowed ha]
    exact htracks

theorem run_tracks {m : Memory t} (h : m.Sound) {shadow : Shadow} (htracks : m.Tracks shadow)
    (accesses : List (Access t)) : (m.run accesses).Tracks (shadow.run m.geometry accesses) := by
  induction accesses generalizing m shadow with
  | nil => exact htracks
  | cons a accesses ih =>
      obtain ⟨hsound, -, hgeometry⟩ := after_keeps h a
      have hrun := ih hsound (after_tracks h htracks a)
      rw [hgeometry] at hrun
      exact hrun

/-- A fresh memory is built from every configuration that validates.  From then on accesses
succeed exactly where they are allowed, and after any run of them every entry reads as the number
that its shadow holds. -/
theorem readBits_run_eq_shadow {config : Config} {g : Geometry}
    (hvalid : config.validate t.width = .ok g)
    (hfits : config.totalEntries * t.width < Size.limit) :
    ∃ start, Memory.new t config = .ok start ∧
      (∀ (accesses : List (Access t)) (a : Access t),
        (∃ next, (start.run accesses).perform a = .ok next) ↔ a.Allowed g) ∧
      ∀ (accesses : List (Access t)) (l : Location), g.contains l →
        ∃ word value, (start.run accesses).readBits l = .ok word ∧
          word.width = t.width ∧ word.WellFormed ∧
          word.toNat = (Shadow.fresh t).run g accesses l ∧
          (start.run accesses).read l = .ok value ∧ Value.pack t value = word := by
  obtain ⟨start, hnew, hsound, -, rfl, hfresh⟩ :=
    new_eq_ok hvalid (Geometry.consistent_of_fits hvalid hfits)
  refine ⟨start, hnew, ?_, ?_⟩
  · intro accesses a
    obtain ⟨hrun, -, hgeometry⟩ := run_keeps hsound accesses
    rw [← hgeometry]
    exact perform_isOk_iff hrun a
  · intro accesses l hl
    obtain ⟨hrun, -, hgeometry⟩ := run_keeps hsound accesses
    rw [← hgeometry] at hl
    obtain ⟨value, hread, hpack⟩ := hrun.exists_read_eq_ok hl
    have hstart : start.Tracks (Shadow.fresh t) :=
      fun l hl => congrArg Bits.toNat (hfresh l hl)
    exact ⟨_, value, hrun.readBits_eq_ok hl, hrun.width_wordAt hl, hrun.wellFormed_wordAt hl,
      run_tracks hsound hstart accesses l hl, hread, hpack⟩

/-- Seven tags in four slices of 21 bits: slices end inside tags, and the last one straddles two
backing words. -/
theorem readBits_run_eq_shadow_tags :
    (⟨6, 3, 4⟩ : Config).validate (ElementType.array .tag12 7).width = .ok ⟨2, 3, 4, 84⟩ ∧
      6 * (ElementType.array .tag12 7).width < Size.limit ∧
      ∃ start, Memory.new (.array .tag12 7) ⟨6, 3, 4⟩ = .ok start ∧
        (∀ (accesses : List (Access (.array .tag12 7))) (a : Access (.array .tag12 7)),
          (∃ next, (start.run accesses).perform a = .ok next) ↔ a.Allowed ⟨2, 3, 4, 84⟩) ∧
        ∀ (accesses : List (Access (.array .tag12 7))) (l : Location),
          Geometry.contains ⟨2, 3, 4, 84⟩ l →
          ∃ word value, (start.run accesses).readBits l = .ok word ∧
            word.width = (ElementType.array .tag12 7).width ∧ word.WellFormed ∧
            word.toNat = (Shadow.fresh (.array .tag12 7)).run ⟨2, 3, 4, 84⟩ accesses l ∧
            (start.run accesses).read l = .ok value ∧ Value.pack (.array .tag12 7) value = word :=
  ⟨rfl, by decide, readBits_run_eq_shadow rfl (by decide)⟩

end Memory

end BankedStore
