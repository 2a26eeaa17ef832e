import BankedStore.Proofs.Memory.LastWrite

/-!
# Writes that do not meet

Two writes meet where they choose the same slice of the same entry.  Writes that
nowhere meet can be made in any order, and lead to the same memory: at each slice
at most one of them counts.  Writes of one word to one entry need not avoid each
other, for where they meet they agree, so their masks add up.
-/

namespace BankedStore

variable {t : ElementType}

/-! ## Two masks -/

namespace SliceMask

def Disjoint (m n : SliceMask) : Prop :=
  ∀ s < m.length, ¬ (m.allows s ∧ n.allows s)

instance (m n : SliceMask) : Decidable (m.Disjoint n) :=
  inferInstanceAs (Decidable (∀ s < m.length, ¬ (m.allows s ∧ n.allows s)))

theorem disjoint_iff {m n : SliceMask} : m.Disjoint n ↔ ∀ s, ¬ (m.allows s ∧ n.allows s) :=
  ⟨fun h s hs => h s (lt_length_of_allows hs.1) hs, fun h s _ => h s⟩

theorem Disjoint.symm {m n : SliceMask} (h : m.Disjoint n) : n.Disjoint m :=
  disjoint_iff.mpr fun s hs => disjoint_iff.mp h s hs.symm

def join (m n : SliceMask) : SliceMask :=
  ofFn m.length fun s => m.allows s || n.allows s

theorem join_complement (m : SliceMask) : m.join m.complement = all m.length := by
  refine eq_of_allows rfl fun s hs => ?_
  have hs : s < m.length := hs
  rw [join, allows_ofFn _ hs, allows_complement, allows_all]
  simp [hs]

end SliceMask

/-! ## Accesses apart -/

namespace Change

/-- Two writes are apart if they are to different entries or have disjoint masks.  What changes
nothing is apart from every change, and a clear from no other. -/
def Apart : Change → Change → Prop
  | .nothing, _ | _, .nothing => True
  | .commit l _ mask, .commit l' _ mask' => l ≠ l' ∨ mask.Disjoint mask'
  | _, _ => False

instance : (c d : Change) → Decidable (c.Apart d)
  | .nothing, _ => inferInstanceAs (Decidable True)
  | .clear, .nothing | .commit _ _ _, .nothing => inferInstanceAs (Decidable True)
  | .commit _ _ _, .commit _ _ _ => inferInstanceAs (Decidable (_ ∨ _))
  | .clear, .clear | .clear, .commit _ _ _ | .commit _ _ _, .clear =>
      inferInstanceAs (Decidable False)

theorem Apart.symm {c d : Change} (h : c.Apart d) : d.Apart c := by
  cases c <;> cases d <;> simp_all only [Apart]
  exact h.imp Ne.symm SliceMask.Disjoint.symm

theorem Apart.source? {c d : Change} (h : c.Apart d) (g : Geometry) (l : Location) (s : Nat) :
    c.source? g l s = none ∨ d.source? g l s = none := by
  cases c with
  | nothing => exact .inl rfl
  | clear =>
      cases d with
      | nothing => exact .inr rfl
      | clear | commit => exact h.elim
  | commit l₁ word mask =>
      cases d with
      | nothing => exact .inr rfl
      | clear => exact h.elim
      | commit l₂ word' mask' =>
          by_contra hboth
          obtain ⟨⟨rfl, hmask⟩, rfl, hmask'⟩ :
              (l = l₁ ∧ mask.allows s) ∧ l = l₂ ∧ mask'.allows s := by
            simpa [Change.source?] using hboth
          cases h with
          | inl hne => exact hne rfl
          | inr hdisjoint => exact SliceMask.disjoint_iff.mp hdisjoint s ⟨hmask, hmask'⟩

end Change

def Access.Apart (g : Geometry) (a b : Access t) : Prop :=
  (a.change g).Apart (b.change g)

instance (g : Geometry) (a b : Access t) : Decidable (a.Apart g b) :=
  inferInstanceAs (Decidable ((a.change g).Apart (b.change g)))

theorem Access.Apart.source? {g : Geometry} {a b : Access t} (h : a.Apart g b) (l : Location)
    (s : Nat) : a.source? g l s = none ∨ b.source? g l s = none := by
  refine (Change.Apart.source? h g l s).imp ?_ ?_
  · intro hnone
    simp [Access.source?, hnone]
  · intro hnone
    simp [Access.source?, hnone]

namespace Memory

variable {m : Memory t}

/-! ## Accesses in any order -/

theorem after_comm (h : m.Sound) {a b : Access t} (hapart : a.Apart m.geometry b) :
    (m.after a).after b = (m.after b).after a := by
  obtain ⟨hsa, hca, hga⟩ := after_keeps h a
  obtain ⟨hsb, hcb, hgb⟩ := after_keeps h b
  obtain ⟨hsab, hcab, hgab⟩ := after_keeps hsa b
  obtain ⟨hsba, hcba, hgba⟩ := after_keeps hsb a
  have hgeometry := hgab.trans hga
  refine hsab.eq_of_sliceAt hsba ((hcab.trans hca).trans (hcba.trans hcb).symm)
    (hgeometry.trans (hgba.trans hgb).symm) ?_
  rw [hgeometry]
  intro l hl s hs
  rw [sliceAt_after hsa b (hga ▸ hl) (hga ▸ hs), sliceAt_after hsb a (hgb ▸ hl) (hgb ▸ hs), hga,
    hgb, sliceAt_after h a hl hs, sliceAt_after h b hl hs]
  cases hapart.source? l s with
  | inl hnone => simp [hnone]
  | inr hnone => simp [hnone]

/-- Accesses that fail may be among them. -/
theorem run_eq_of_perm (h : m.Sound) {first second : List (Access t)} (hperm : first.Perm second)
    (hapart : first.Pairwise (Access.Apart m.geometry)) : m.run first = m.run second := by
  induction hperm generalizing m with
  | nil => rfl
  | cons a _ ih =>
      obtain ⟨hsound, -, hgeometry⟩ := after_keeps h a
      exact ih hsound (hgeometry ▸ hapart.of_cons)
  | swap a b rest =>
      have hba : b.Apart m.geometry a := List.rel_of_pairwise_cons hapart (by simp)
      exact congrArg (run · rest) (after_comm h hba)
  | trans hperm _ ih ih' =>
      refine (ih h hapart).trans (ih' h ?_)
      exact (hperm.pairwise_iff Change.Apart.symm).mp hapart

theorem foldlM_perform_eq_run (h : m.Sound) {accesses : List (Access t)}
    (hallowed : ∀ a ∈ accesses, a.Allowed m.geometry) :
    accesses.foldlM perform m = .ok (m.run accesses) := by
  induction accesses generalizing m with
  | nil => rfl
  | cons a accesses ih =>
      rw [List.forall_mem_cons] at hallowed
      obtain ⟨next, hnext, -⟩ := perform_allowed h hallowed.1
      have hafter : m.after a = next := by rw [after, hnext]
      obtain ⟨hsound, -, hgeometry⟩ := after_keeps h a
      rw [← hafter] at hnext
      rw [List.foldlM_cons, hnext]
      exact ih hsound (hgeometry ▸ hallowed.2)

/-! ## One word under several masks -/

section SameWord

variable {l : Location} {word : Bits} {mask mask' : SliceMask} {mid next next' : Memory t}

theorem Written.unique (h : m.Written l word mask next) (h' : m.Written l word mask next') :
    next = next' := by
  refine h.sound.eq_of_sliceAt h'.sound (h.config.trans h'.config.symm)
    (h.geometry.trans h'.geometry.symm) ?_
  rw [h.geometry]
  intro l' hl' s hs
  rw [h.slices l' s hl' hs, h'.slices l' s hl' hs]

theorem Written.join (h : m.Written l word mask mid) (h' : mid.Written l word mask' next)
    (hmask : mask.length = m.geometry.byteEnables) :
    m.Written l word (mask.join mask') next where
  sound := h'.sound
  config := h'.config.trans h.config
  geometry := h'.geometry.trans h.geometry
  slices l' s hl' hs := by
    rw [h'.slices l' s (h.geometry ▸ hl') (h.geometry ▸ hs), h.slices l' s hl' hs,
      SliceMask.join, SliceMask.allows_ofFn _ (hmask ▸ hs), h.geometry]
    by_cases hl : l' = l
    · cases mask.allows s <;> simp [hl]
    · simp [hl]

theorem writeBits_join (h : m.Sound) (hl : m.geometry.contains l)
    (hword : word.width = m.geometry.wordWidth) (hmask : mask.length = m.geometry.byteEnables)
    (hmask' : mask'.length = m.geometry.byteEnables) :
    ∃ mid final, m.writeBits l word mask = .ok mid ∧ mid.writeBits l word mask' = .ok final ∧
      m.writeBits l word (mask.join mask') = .ok final := by
  obtain ⟨mid, hmid, hfirst⟩ := exists_writeBits_eq_ok h mask hl hword hmask
  obtain ⟨final, hfinal, hsecond⟩ := exists_writeBits_eq_ok hfirst.sound mask'
    (hfirst.geometry ▸ hl) (hfirst.geometry ▸ hword) (hfirst.geometry ▸ hmask')
  obtain ⟨once, honce, hjoined⟩ :=
    exists_writeBits_eq_ok h (mask.join mask') hl hword hmask
  have hsame := hjoined.unique (hfirst.join hsecond hmask)
  exact ⟨mid, final, hmid, hfinal, hsame ▸ honce⟩

end SameWord

/-- Accesses of which no two ask for the same slice lead to the same memory in any order.  A word
written to an entry under two masks is that word written under both at once, and so a mask and its
complement store it. -/
theorem writes_commute_and_join (h : m.Reachable) :
    (∀ first second : List (Access t), (∀ a ∈ first, ∃ next, m.perform a = .ok next) →
      first.Pairwise (Access.Apart m.geometry) → first.Perm second →
        ∃ final, first.foldlM perform m = .ok final ∧ second.foldlM perform m = .ok final) ∧
    ∀ l, m.geometry.contains l →
      (∀ (word : Bits) (mask mask' : SliceMask), word.width = m.geometry.wordWidth →
        mask.length = m.geometry.byteEnables → mask'.length = m.geometry.byteEnables →
          ∃ mid final, m.writeBits l word mask = .ok mid ∧ mid.writeBits l word mask' = .ok final ∧
            m.writeBits l word (mask.join mask') = .ok final) ∧
      ∀ (value : Value t) (mask : SliceMask), mask.length = m.geometry.byteEnables →
        ∃ mid final, m.write l value mask true = .ok mid ∧
          mid.write l value mask.complement true = .ok final ∧ m.store l value = .ok final := by
  have hsound := h.sound
  refine ⟨?_, fun l hl => ⟨?_, ?_⟩⟩
  · intro first second hfirst hapart hperm
    have hallowed : ∀ a ∈ first, a.Allowed m.geometry :=
      fun a ha => (perform_isOk_iff hsound a).mp (hfirst a ha)
    refine ⟨m.run first, foldlM_perform_eq_run hsound hallowed, ?_⟩
    rw [run_eq_of_perm hsound hperm hapart]
    exact foldlM_perform_eq_run hsound fun a ha => hallowed a (hperm.mem_iff.mpr ha)
  · exact fun word mask mask' hword hmask hmask' => writeBits_join hsound hl hword hmask hmask'
  · intro value mask hmask
    have hword := (Value.width_pack t value).trans hsound.wordWidth.symm
    have hcomplement : mask.complement.length = m.geometry.byteEnables := hmask
    obtain ⟨mid, final, hmid, hfinal, honce⟩ := writeBits_join hsound hl hword hmask hcomplement
    rw [SliceMask.join_complement, hmask] at honce
    exact ⟨mid, final, hmid, hfinal, honce⟩

private def tagWrites : List (Access .tag12) :=
  [.writeBits ⟨1, 2⟩ (.ofNat 12 0xABC) (.ofUInt64 4 5),
    .write ⟨1, 2⟩ (⟨0x123⟩ : Tag12) (.ofUInt64 4 10) true,
    .write ⟨0, 2⟩ (⟨0x456⟩ : Tag12) (.ofUInt64 4 7) true, .store ⟨1, 0⟩ (⟨0x789⟩ : Tag12)]

theorem writes_commute_and_join_tags :
    ∃ m : Memory .tag12, Memory.new .tag12 ⟨6, 3, 4⟩ = .ok m ∧ m.Reachable ∧
      (∀ a ∈ tagWrites, ∃ next, m.perform a = .ok next) ∧
      tagWrites.Pairwise (Access.Apart m.geometry) ∧
      (∃ final, tagWrites.foldlM perform m = .ok final ∧
        tagWrites.reverse.foldlM perform m = .ok final) ∧
      ∃ mid final, m.write ⟨1, 2⟩ (⟨0xABC⟩ : Tag12) (.ofUInt64 4 5) true = .ok mid ∧
        mid.write ⟨1, 2⟩ (⟨0xABC⟩ : Tag12) (.ofUInt64 4 10) true = .ok final ∧
        m.store ⟨1, 2⟩ (⟨0xABC⟩ : Tag12) = .ok final := by
  have hvalid : (⟨6, 3, 4⟩ : Config).validate ElementType.tag12.width = .ok ⟨2, 3, 4, 12⟩ := rfl
  obtain ⟨m, hnew, hm, hgeometry⟩ := exists_fresh (t := .tag12) hvalid (by decide)
  obtain ⟨hcommute, hentries⟩ := writes_commute_and_join hm
  have hallowed : ∀ a ∈ tagWrites, a.Allowed m.geometry := by
    rw [hgeometry]
    decide
  have hsucceed : ∀ a ∈ tagWrites, ∃ next, m.perform a = .ok next :=
    fun a ha => (perform_isOk_iff hm.sound a).mpr (hallowed a ha)
  have hapart : tagWrites.Pairwise (Access.Apart m.geometry) := by
    rw [hgeometry]
    decide
  obtain ⟨-, hjoin⟩ := hentries ⟨1, 2⟩ (hgeometry ▸ rfl)
  exact ⟨m, hnew, hm, hsucceed, hapart,
    hcommute tagWrites _ hsucceed hapart (List.reverse_perm tagWrites).symm,
    hjoin (⟨0xABC⟩ : Tag12) (.ofUInt64 4 5) (hgeometry ▸ rfl)⟩

end Memory

end BankedStore
