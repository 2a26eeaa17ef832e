import BankedStore.Proofs.Memory.Updates

/-!
# Runs of accesses

An access is a call that can change a memory, made on the memory itself or
through the interface of an entry store.  `Allowed` says which accesses succeed
and `change` what a successful one does; both look at the geometry only.  A run
goes on after an access that fails, which leaves the memory as it was.
-/

namespace BankedStore

inductive Access (t : ElementType) where
  | write (l : Location) (value : Value t) (mask : SliceMask) (enable : Bool)
  | store (l : Location) (value : Value t)
  | writeBits (l : Location) (word : Bits) (mask : SliceMask)
  | tryWrite (l : Location) (value : Value t) (mask : SliceMask) (enable : Bool)
  | clear
  | entryWrite (l : Location) (value : Value t) (mask : SliceMask) (enable : Bool)
  | entryStore (l : Location) (value : Value t)
  | entryClear

inductive Change where
  | nothing
  | clear
  | commit (l : Location) (word : Bits) (mask : SliceMask)

namespace Access

variable {t : ElementType}

/-- A write that is not enabled needs nothing, unless it is a checked one. -/
def Allowed (g : Geometry) : Access t → Prop
  | write l _ mask enable | entryWrite l _ mask enable =>
      enable = true → g.contains l ∧ mask.length = g.byteEnables
  | store l _ | entryStore l _ => g.contains l
  | writeBits l word mask =>
      g.contains l ∧ word.width = g.wordWidth ∧ mask.length = g.byteEnables
  | tryWrite l _ mask _ => g.contains l ∧ mask.length = g.byteEnables
  | clear | entryClear => True

instance (g : Geometry) : (a : Access t) → Decidable (a.Allowed g)
  | write _ _ _ _ | entryWrite _ _ _ _ => inferInstanceAs (Decidable (_ → _))
  | store _ _ | entryStore _ _ => inferInstanceAs (Decidable (_ = true))
  | writeBits _ _ _ => inferInstanceAs (Decidable (_ ∧ _ ∧ _))
  | tryWrite _ _ _ _ => inferInstanceAs (Decidable (_ ∧ _))
  | clear | entryClear => inferInstanceAs (Decidable True)

def change (g : Geometry) : Access t → Change
  | write l value mask enable | tryWrite l value mask enable | entryWrite l value mask enable =>
      if enable then .commit l (Value.pack t value) mask else .nothing
  | store l value | entryStore l value => .commit l (Value.pack t value) (.all g.byteEnables)
  | writeBits l word mask => .commit l word mask
  | clear | entryClear => .clear

end Access

namespace Memory

variable {t : ElementType}

def perform (m : Memory t) : Access t → Except (Failure Rejection) (Memory t)
  | .write l value mask enable => Failure.ofFault (m.write l value mask enable)
  | .store l value => Failure.ofFault (m.store l value)
  | .writeBits l word mask => Failure.ofFault (m.writeBits l word mask)
  | .tryWrite l value mask enable => m.tryWrite l value mask enable
  | .clear => .ok m.clear
  | .entryWrite l value mask enable => Failure.ofFault (EntryStore.write m l value mask enable)
  | .entryStore l value => Failure.ofFault (EntryStore.store m l value)
  | .entryClear => .ok (EntryStore.clear m)

def after (m : Memory t) (a : Access t) : Memory t :=
  match m.perform a with
  | .ok next => next
  | .error _ => m

def run (m : Memory t) (accesses : List (Access t)) : Memory t :=
  accesses.foldl after m

/-- Some run of a fresh memory ends in this one.  Its entries and the bits of a word are sizes. -/
def Reachable (m : Memory t) : Prop :=
  ∃ config start accesses, config.totalEntries < Size.limit ∧ t.width < Size.limit ∧
    Memory.new t config = .ok start ∧ m = start.run accesses

def Changed (m : Memory t) : Change → Memory t → Prop
  | .nothing, next => next = m
  | .clear, next => next = m.clear
  | .commit l word mask, next => m.Written l word mask next

/-! ## One access -/

private theorem exists_write_eq_ok {m : Memory t} (h : m.Sound) {l : Location} (value : Value t)
    (mask : SliceMask) (hl : m.geometry.contains l) (hmask : mask.length = m.geometry.byteEnables) :
    ∃ next, m.writeBits l (Value.pack t value) mask = .ok next ∧
      m.Written l (Value.pack t value) mask next :=
  exists_writeBits_eq_ok h mask hl ((Value.width_pack t value).trans h.wordWidth.symm) hmask

theorem perform_allowed {m : Memory t} (h : m.Sound) {a : Access t}
    (ha : a.Allowed m.geometry) :
    ∃ next, m.perform a = .ok next ∧ m.Changed (a.change m.geometry) next := by
  cases a with
  | write l value mask enable | entryWrite l value mask enable =>
      cases enable with
      | false => exact ⟨m, rfl, rfl⟩
      | true =>
          obtain ⟨hl, hmask⟩ := ha rfl
          obtain ⟨next, hwrite, hwritten⟩ := exists_write_eq_ok h value mask hl hmask
          refine ⟨next, ?_, hwritten⟩
          change Failure.ofFault (m.writeBits l (Value.pack t value) mask) = _
          rw [hwrite]
          rfl
  | store l value | entryStore l value =>
      obtain ⟨next, hwrite, hwritten⟩ :=
        exists_write_eq_ok h value (.all m.geometry.byteEnables) ha rfl
      refine ⟨next, ?_, hwritten⟩
      change Failure.ofFault
        (m.writeBits l (Value.pack t value) (.all m.geometry.byteEnables)) = _
      rw [hwrite]
      rfl
  | writeBits l word mask =>
      obtain ⟨hl, hword, hmask⟩ := ha
      obtain ⟨next, hwrite, hwritten⟩ := exists_writeBits_eq_ok h mask hl hword hmask
      refine ⟨next, ?_, hwritten⟩
      rw [perform, hwrite]
      rfl
  | tryWrite l value mask enable =>
      obtain ⟨hl, hmask⟩ := ha
      have hcheck := Geometry.check_eq_ok_iff.mpr hl
      cases enable with
      | false =>
          refine ⟨m, ?_, rfl⟩
          rw [perform, tryWrite, hcheck, if_pos hmask]
          rfl
      | true =>
          obtain ⟨next, hwrite, hwritten⟩ := exists_write_eq_ok h value mask hl hmask
          refine ⟨next, ?_, hwritten⟩
          rw [perform, tryWrite, hcheck, if_pos hmask]
          change Failure.ofFault (m.writeBits l (Value.pack t value) mask) = _
          rw [hwrite]
          rfl
  | clear | entryClear => exact ⟨m.clear, rfl, rfl⟩

def writeFault? (g : Geometry) (l : Location) (word : Bits) (mask : SliceMask) : Option Fault :=
  if ¬ g.contains l then some (.entryOutside l.index l.bank g.entriesPerBank g.bankCount)
  else if word.width ≠ g.wordWidth then some (.wordWidthMismatch word.width g.wordWidth)
  else if mask.length ≠ g.byteEnables then some (.maskLengthMismatch mask.length g.byteEnables)
  else none

theorem writeFault?_eq_none_iff {g : Geometry} {l : Location} {word : Bits} {mask : SliceMask} :
    writeFault? g l word mask = none ↔
      g.contains l ∧ word.width = g.wordWidth ∧ mask.length = g.byteEnables := by
  unfold writeFault?
  split_ifs <;> simp_all

theorem writeBits_eq_fault {m : Memory t} {l : Location} {word : Bits} {mask : SliceMask}
    {fault : Fault} (h : writeFault? m.geometry l word mask = some fault) :
    m.writeBits l word mask = .error fault := by
  unfold writeFault? at h
  by_cases hl : m.geometry.contains l
  · by_cases hword : word.width = m.geometry.wordWidth
    · by_cases hmask : mask.length = m.geometry.byteEnables
      · simp [hl, hword, hmask] at h
      · rw [if_neg (not_not.mpr hl), if_neg (not_not.mpr hword), if_pos hmask,
          Option.some.injEq] at h
        rw [writeBits, Sound.expectInside_eq_ok hl, Value.expectWidth_eq_ok hword]
        change (if mask.length = m.geometry.byteEnables then _ else _) = _
        rw [if_neg hmask, ← h]
        rfl
    · rw [if_neg (not_not.mpr hl), if_pos hword, Option.some.injEq] at h
      rw [writeBits, Sound.expectInside_eq_ok hl, Value.expectWidth, if_neg hword, ← h]
      rfl
  · rw [if_pos hl, Option.some.injEq] at h
    rw [writeBits, expectInside, if_neg hl, ← h]
    rfl

theorem writeBits_eq_error {m : Memory t} {l : Location} {word : Bits} {mask : SliceMask}
    (h : ¬ (m.geometry.contains l ∧ word.width = m.geometry.wordWidth ∧
      mask.length = m.geometry.byteEnables)) : ∃ e, m.writeBits l word mask = .error e := by
  rw [← writeFault?_eq_none_iff, ← ne_eq, Option.ne_none_iff_exists'] at h
  obtain ⟨fault, hfault⟩ := h
  exact ⟨fault, writeBits_eq_fault hfault⟩

private theorem ofFault_eq_error {α : Type} {x : Except Fault α} (h : ∃ e, x = .error e) :
    ∃ e, (Failure.ofFault x : Except (Failure Rejection) α) = .error e := by
  obtain ⟨e, rfl⟩ := h
  exact ⟨.fault e, rfl⟩

theorem perform_not_allowed {m : Memory t} {a : Access t} (ha : ¬ a.Allowed m.geometry) :
    ∃ e, m.perform a = .error e := by
  cases a with
  | write l value mask enable | entryWrite l value mask enable =>
      cases enable with
      | false => exact absurd (fun h => Bool.noConfusion h) ha
      | true =>
          exact ofFault_eq_error (writeBits_eq_error fun h => ha fun _ => ⟨h.1, h.2.2⟩)
  | store l value | entryStore l value =>
      exact ofFault_eq_error (writeBits_eq_error fun h => ha h.1)
  | writeBits l word mask => exact ofFault_eq_error (writeBits_eq_error ha)
  | tryWrite l value mask enable =>
      by_cases hl : m.geometry.contains l
      · have hmask : mask.length ≠ m.geometry.byteEnables := fun hmask => ha ⟨hl, hmask⟩
        rw [perform, tryWrite, Geometry.check_eq_ok_iff.mpr hl, if_neg hmask]
        exact ⟨_, rfl⟩
      · have hcheck : m.geometry.check l ≠ .ok () := fun h => hl (Geometry.check_eq_ok_iff.mp h)
        rw [perform, tryWrite]
        cases h : m.geometry.check l with
        | ok => exact absurd h hcheck
        | error e => exact ⟨_, rfl⟩
  | clear | entryClear => exact absurd trivial ha

theorem perform_isOk_iff {m : Memory t} (h : m.Sound) (a : Access t) :
    (∃ next, m.perform a = .ok next) ↔ a.Allowed m.geometry := by
  constructor
  · rintro ⟨next, hnext⟩
    by_contra ha
    obtain ⟨e, he⟩ := perform_not_allowed ha
    rw [he] at hnext
    cases hnext
  · intro ha
    obtain ⟨next, hnext, -⟩ := perform_allowed h ha
    exact ⟨next, hnext⟩

theorem after_eq_of_not_allowed {m : Memory t} {a : Access t} (ha : ¬ a.Allowed m.geometry) :
    m.after a = m := by
  obtain ⟨e, he⟩ := perform_not_allowed ha
  rw [after, he]

theorem changed_after {m : Memory t} (h : m.Sound) {a : Access t} (ha : a.Allowed m.geometry) :
    m.Changed (a.change m.geometry) (m.after a) := by
  obtain ⟨next, hnext, hchanged⟩ := perform_allowed h ha
  rw [after, hnext]
  exact hchanged

/-! ## What every access keeps -/

theorem Changed.keeps {m next : Memory t} (h : m.Sound) {c : Change} (hc : m.Changed c next) :
    next.Sound ∧ next.config = m.config ∧ next.geometry = m.geometry := by
  cases c with
  | nothing =>
      cases hc
      exact ⟨h, rfl, rfl⟩
  | clear =>
      cases hc
      exact ⟨h.clear, rfl, rfl⟩
  | commit l word mask => exact ⟨hc.sound, hc.config, hc.geometry⟩

theorem after_keeps {m : Memory t} (h : m.Sound) (a : Access t) :
    (m.after a).Sound ∧ (m.after a).config = m.config ∧ (m.after a).geometry = m.geometry := by
  by_cases ha : a.Allowed m.geometry
  · exact (changed_after h ha).keeps h
  · rw [after_eq_of_not_allowed ha]
    exact ⟨h, rfl, rfl⟩

theorem run_keeps {m : Memory t} (h : m.Sound) (accesses : List (Access t)) :
    (m.run accesses).Sound ∧ (m.run accesses).config = m.config ∧
      (m.run accesses).geometry = m.geometry := by
  induction accesses generalizing m with
  | nil => exact ⟨h, rfl, rfl⟩
  | cons a accesses ih =>
      obtain ⟨hsound, hconfig, hgeometry⟩ := after_keeps h a
      obtain ⟨hrun, hrunConfig, hrunGeometry⟩ := ih hsound
      exact ⟨hrun, hrunConfig.trans hconfig, hrunGeometry.trans hgeometry⟩

theorem exists_validate_of_new {config : Config} {m : Memory t} (h : Memory.new t config = .ok m) :
    ∃ g, config.validate t.width = .ok g := by
  cases hvalid : config.validate t.width with
  | ok g => exact ⟨g, rfl⟩
  | error e =>
      rw [Memory.new, hvalid] at h
      cases h

/-- A memory is only built from a configuration that validates and whose slots can be counted. -/
theorem consistent_of_new {config : Config} {m : Memory t} (h : Memory.new t config = .ok m)
    (hentries : config.totalEntries < Size.limit) (hwidth : t.width < Size.limit) :
    ∃ g, config.validate t.width = .ok g ∧ g.Consistent := by
  obtain ⟨g, hvalid⟩ := exists_validate_of_new h
  refine ⟨g, hvalid, Geometry.consistent_of_validate hvalid hentries hwidth ?_⟩
  obtain ⟨-, -, henables, hword, -, hslices, rfl⟩ := Config.validate_eq_ok_iff.mp hvalid
  have hpack := Value.width_pack t default
  have hchunks := Bits.chunks_eq_ok (b := Value.pack t default) (t.width / config.byteEnables)
    (Nat.div_pos (Nat.le_of_dvd hword hslices) henables)
    (by rw [hpack]; exact Nat.div_dvd_of_dvd hslices)
  rw [hpack, Nat.div_div_self hslices hword.ne'] at hchunks
  rw [Memory.new, hvalid] at h
  by_contra hslots
  change (do
    let pattern ← Failure.ofFault
      ((Value.pack t default).chunks (t.width / config.byteEnables))
    let bank ← Failure.ofFault (Bank.new (config.totalEntries / config.bankCount) pattern)
    return (⟨config, _, Array.replicate config.bankCount bank⟩ : Memory t)) = .ok m at h
  rw [hchunks] at h
  change (do
    let bank ← Failure.ofFault (Bank.new (config.totalEntries / config.bankCount) _)
    return (⟨config, _, Array.replicate config.bankCount bank⟩ : Memory t)) = .ok m at h
  rw [Bank.new_eq_error (by simpa using hslots)] at h
  cases h

theorem Reachable.sound {m : Memory t} (h : m.Reachable) : m.Sound := by
  obtain ⟨config, start, accesses, hentries, hwidth, hstart, rfl⟩ := h
  obtain ⟨g, hvalid, hg⟩ := consistent_of_new hstart hentries hwidth
  obtain ⟨built, hbuilt, hsound, -⟩ := new_eq_ok hvalid hg
  rw [hstart] at hbuilt
  cases hbuilt
  exact (run_keeps hsound accesses).1

theorem exists_fresh {config : Config} {g : Geometry} (hvalid : config.validate t.width = .ok g)
    (hfits : config.totalEntries * t.width < Size.limit) :
    ∃ m, Memory.new t config = .ok m ∧ m.Reachable ∧ m.geometry = g := by
  have hg := Geometry.consistent_of_fits hvalid hfits
  have hwidth : t.width < Size.limit := Geometry.wordWidth_of_validate hvalid ▸ hg.width_lt
  have hentries : config.totalEntries < Size.limit :=
    Nat.lt_of_le_of_lt (Nat.le_mul_of_pos_right _ (Config.validate_eq_ok_iff.mp hvalid).2.2.2.1)
      hfits
  obtain ⟨m, hnew, -, -, hgeometry, -⟩ := new_eq_ok hvalid hg
  exact ⟨m, hnew, ⟨config, m, [], hentries, hwidth, hnew, rfl⟩, hgeometry⟩

end Memory

end BankedStore
