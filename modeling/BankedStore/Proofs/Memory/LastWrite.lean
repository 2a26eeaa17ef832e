import BankedStore.Proofs.Memory.Canonical

/-!
# The last write to a slice

Which bits a slice holds can be read off the history of the memory, backwards: the
first access met that has changed the slice is the one that decides.  A write that
chose the slice has left its part of the word there, a clear has left zeros, and
where no access has changed it the slice is still that of the default value.
-/

namespace BankedStore

variable {t : ElementType}

/-! ## Sources -/

/-- The word whose part the change leaves in slice `s` of the entry at `l`, if it touches that
slice. -/
def Change.source? (g : Geometry) (l : Location) (s : Nat) : Change → Option Bits
  | .nothing => none
  | .clear => some (.zero g.wordWidth)
  | .commit l' word mask => if l = l' ∧ mask.allows s then some word else none

def Access.source? (g : Geometry) (l : Location) (s : Nat) (a : Access t) : Option Bits :=
  if a.Allowed g then (a.change g).source? g l s else none

/-- The word that slice `s` of the entry at `l` has its bits from, after these accesses to a fresh
memory. -/
def lastSource (g : Geometry) (l : Location) (s : Nat) (accesses : List (Access t)) : Bits :=
  (accesses.reverse.findSome? (Access.source? g l s)).getD (Value.pack t default)

theorem Access.width_of_source? {g : Geometry} (hwidth : g.wordWidth = t.width) {l : Location}
    {s : Nat} {a : Access t} {word : Bits} (h : a.source? g l s = some word) :
    word.width = g.wordWidth := by
  have hpack : ∀ value : Value t, (Value.pack t value).width = g.wordWidth :=
    fun value => (Value.width_pack t value).trans hwidth.symm
  obtain ⟨hallowed, hsource⟩ : a.Allowed g ∧ (a.change g).source? g l s = some word := by
    simpa [Access.source?] using h
  cases a with
  | write l' value mask enable | tryWrite l' value mask enable | entryWrite l' value mask enable =>
      cases enable <;> simp [Access.change, Change.source?] at hsource
      exact hsource.2 ▸ hpack value
  | store l' value | entryStore l' value =>
      simp [Access.change, Change.source?] at hsource
      exact hsource.2 ▸ hpack value
  | writeBits l' word' mask =>
      simp [Access.change, Change.source?] at hsource
      exact hsource.2 ▸ hallowed.2.1
  | clear | entryClear =>
      simp [Access.change, Change.source?] at hsource
      exact hsource ▸ rfl

theorem width_lastSource {g : Geometry} (hwidth : g.wordWidth = t.width) (l : Location) (s : Nat)
    (accesses : List (Access t)) : (lastSource g l s accesses).width = g.wordWidth := by
  unfold lastSource
  cases hsource : accesses.reverse.findSome? (Access.source? g l s) with
  | none => exact (Value.width_pack t default).trans hwidth.symm
  | some word =>
      obtain ⟨a, -, ha⟩ := List.exists_of_findSome?_eq_some hsource
      exact Access.width_of_source? hwidth ha

namespace Memory

variable {m : Memory t}

/-! ## Runs -/

theorem sliceAt_changed (h : m.Sound) {c : Change} {next : Memory t} (hc : m.Changed c next)
    {l : Location} {s : Nat} (hl : m.geometry.contains l) (hs : s < m.geometry.byteEnables) :
    next.sliceAt l s =
      ((c.source? m.geometry l s).map fun word =>
        word.field (s * m.geometry.sliceWidth) m.geometry.sliceWidth).getD (m.sliceAt l s) := by
  cases c with
  | nothing =>
      cases hc
      rfl
  | clear =>
      cases hc
      rw [sliceAt_clear h hl hs]
      exact (Bits.field_zero ..).symm
  | commit l' word mask =>
      rw [hc.slices l s hl hs, Change.source?]
      split <;> rfl

theorem sliceAt_after (h : m.Sound) (a : Access t) {l : Location} {s : Nat}
    (hl : m.geometry.contains l) (hs : s < m.geometry.byteEnables) :
    (m.after a).sliceAt l s =
      ((a.source? m.geometry l s).map fun word =>
        word.field (s * m.geometry.sliceWidth) m.geometry.sliceWidth).getD (m.sliceAt l s) := by
  unfold Access.source?
  by_cases ha : a.Allowed m.geometry
  · rw [if_pos ha]
    exact sliceAt_changed h (changed_after h ha) hl hs
  · rw [if_neg ha, after_eq_of_not_allowed ha]
    rfl

theorem sliceAt_run (h : m.Sound) (accesses : List (Access t)) {l : Location} {s : Nat}
    (hl : m.geometry.contains l) (hs : s < m.geometry.byteEnables) :
    (m.run accesses).sliceAt l s =
      ((accesses.reverse.findSome? (Access.source? m.geometry l s)).map fun word =>
        word.field (s * m.geometry.sliceWidth) m.geometry.sliceWidth).getD (m.sliceAt l s) := by
  -- The first access is the last one that the search comes to.
  induction accesses generalizing m with
  | nil => rfl
  | cons a accesses ih =>
      obtain ⟨hsound, -, hgeometry⟩ := after_keeps h a
      have hrest := ih hsound (hgeometry ▸ hl) (hgeometry ▸ hs)
      rw [hgeometry, sliceAt_after h a hl hs] at hrest
      change ((m.after a).run accesses).sliceAt l s = _
      rw [hrest, List.reverse_cons, List.findSome?_append]
      cases accesses.reverse.findSome? (Access.source? m.geometry l s) <;> simp

/-- After any run of accesses to a fresh memory, each slice is its part of the word last written
over it, unless a clear came later.  Then it is zero, and where nothing has changed it, it is its
part of the default value.  Accesses succeed exactly where they are allowed. -/
theorem slice_run_eq_last {config : Config} {g : Geometry}
    (hvalid : config.validate t.width = .ok g)
    (hfits : config.totalEntries * t.width < Size.limit) :
    ∃ start, Memory.new t config = .ok start ∧
      (∀ (accesses : List (Access t)) (a : Access t),
        (∃ next, (start.run accesses).perform a = .ok next) ↔ a.Allowed g) ∧
      ∀ (accesses : List (Access t)) (l : Location) (s : Nat), g.contains l → s < g.byteEnables →
        ∃ slice, (start.run accesses).slice l s = .ok slice ∧
          (lastSource g l s accesses).range (s * g.sliceWidth) g.sliceWidth = .ok slice := by
  obtain ⟨start, hnew, hsound, -, rfl, hfresh⟩ :=
    new_eq_ok hvalid (Geometry.consistent_of_fits hvalid hfits)
  refine ⟨start, hnew, ?_, ?_⟩
  · intro accesses a
    obtain ⟨hrun, -, hgeometry⟩ := run_keeps hsound accesses
    rw [← hgeometry]
    exact perform_isOk_iff hrun a
  · intro accesses l s hl hs
    obtain ⟨hrun, -, hgeometry⟩ := run_keeps hsound accesses
    have hwidth := width_lastSource hsound.wordWidth l s accesses
    have hinside := hsound.slice_le hs
    rw [← hsound.wordWidth, ← hwidth] at hinside
    refine ⟨_, hrun.slice_eq_ok (hgeometry ▸ hl) (hgeometry ▸ hs), ?_⟩
    rw [Bits.range_eq_ok _ hinside (hwidth ▸ hsound.consistent.width_lt),
      sliceAt_run hsound accesses hl hs, lastSource, ← hsound.field_wordAt hl hs, hfresh l hl]
    cases accesses.reverse.findSome? (Access.source? start.geometry l s) <;> rfl

private def tagHistory : List (Access .tag12) :=
  [.write ⟨1, 2⟩ (⟨0xFFF⟩ : Tag12) (.all 4) true, .clear,
    .write ⟨1, 2⟩ (⟨0xABC⟩ : Tag12) (.ofUInt64 4 5) true,
    .write ⟨1, 2⟩ (⟨0x123⟩ : Tag12) (.all 4) false, .writeBits ⟨1, 2⟩ (.zero 11) (.all 4)]

theorem slice_run_eq_last_tags :
    (⟨6, 3, 4⟩ : Config).validate ElementType.tag12.width = .ok ⟨2, 3, 4, 12⟩ ∧
      6 * ElementType.tag12.width < Size.limit ∧
      ∃ start, Memory.new .tag12 ⟨6, 3, 4⟩ = .ok start ∧
        (start.run tagHistory).slice ⟨1, 2⟩ 2 = .ok (.ofNat 3 2) ∧
        (start.run tagHistory).slice ⟨1, 2⟩ 1 = .ok (.zero 3) := by
  have hvalid : (⟨6, 3, 4⟩ : Config).validate ElementType.tag12.width = .ok ⟨2, 3, 4, 12⟩ := rfl
  have hfits : 6 * ElementType.tag12.width < Size.limit := by decide
  obtain ⟨start, hnew, -, hslices⟩ := slice_run_eq_last hvalid hfits
  obtain ⟨written, hwritten, hsource⟩ := hslices tagHistory ⟨1, 2⟩ 2 rfl (by decide)
  obtain ⟨clear, hclear, hzero⟩ := hslices tagHistory ⟨1, 2⟩ 1 rfl (by decide)
  cases hsource
  cases hzero
  refine ⟨rfl, hfits, start, hnew, hwritten.trans ?_, hclear.trans ?_⟩
  · decide +kernel
  · decide +kernel

end Memory

end BankedStore
