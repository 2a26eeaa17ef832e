import BankedStore.Proofs.Memory.BySlices

/-!
# Checked and unchecked accesses

A checked access answers with a reason where an unchecked one faults.  They look at
their arguments in different orders and for different reasons, yet an enabled write
goes through in one form if and only if it does in the other.  Both are taken here
as they run, slice by slice: one that fails leaves the memory as it was.
-/

namespace BankedStore.Memory

variable {t : ElementType} {m : Memory t} {l : Location} {value : Value t} {mask : SliceMask}

/-- What a checked write is refused for, in the order of its checks, enabled or not. -/
def writeRefusal? (g : Geometry) (l : Location) (mask : SliceMask) : Option Rejection :=
  if g.bankCount ≤ l.bank then some (.bankOutOfRange l.bank g.bankCount)
  else if g.entriesPerBank ≤ l.index then some (.indexOutOfRange l.index g.entriesPerBank)
  else if mask.length ≠ g.byteEnables then some (.maskLengthMismatch mask.length g.byteEnables)
  else none

theorem writeRefusal?_eq_none_iff {g : Geometry} :
    writeRefusal? g l mask = none ↔ g.contains l ∧ mask.length = g.byteEnables := by
  rw [Geometry.contains_iff, writeRefusal?]
  by_cases hbank : g.bankCount ≤ l.bank
  · simp [hbank]
  · by_cases hindex : g.entriesPerBank ≤ l.index
    · simp [hbank, hindex]
    · simp [hbank, hindex]
      omega

theorem tryWrite_eq (m : Memory t) (l : Location) (value : Value t) (mask : SliceMask)
    (enable : Bool) :
    m.tryWrite l value mask enable =
      (writeRefusal? m.geometry l mask).elim (Failure.ofFault (m.write l value mask enable))
        fun reason => .error (.refused reason) := by
  unfold tryWrite writeRefusal? Geometry.check
  by_cases hbank : m.geometry.bankCount ≤ l.bank
  · simp [hbank]
    rfl
  · by_cases hindex : m.geometry.entriesPerBank ≤ l.index
    · simp [hbank, hindex]
      rfl
    · by_cases hmask : mask.length = m.geometry.byteEnables <;> simp [hbank, hindex, hmask] <;> rfl

theorem exists_write_of_accepted (h : m.Sound) (hnone : writeRefusal? m.geometry l mask = none)
    (value : Value t) (enable : Bool) : ∃ next, m.write l value mask enable = .ok next := by
  cases enable with
  | false => exact ⟨m, rfl⟩
  | true =>
      obtain ⟨hl, hmask⟩ := writeRefusal?_eq_none_iff.mp hnone
      obtain ⟨next, hnext, -⟩ := exists_writeBits_eq_ok h mask hl
        ((Value.width_pack t value).trans h.wordWidth.symm) hmask
      exact ⟨next, hnext⟩

theorem exists_write_of_refused {reason : Rejection}
    (hsome : writeRefusal? m.geometry l mask = some reason) (value : Value t) :
    ∃ fault, m.write l value mask true = .error fault := by
  refine writeBits_eq_error fun hallowed => ?_
  have hnone := writeRefusal?_eq_none_iff.mpr ⟨hallowed.1, hallowed.2.2⟩
  rw [hsome] at hnone
  cases hnone

theorem tryRead_eq_ok_iff : m.tryRead l = .ok value ↔ m.read l = .ok value := by
  unfold tryRead
  cases hcheck : m.geometry.check l with
  | ok =>
      change (Failure.ofFault (m.read l) : Except (Failure Rejection) _) = _ ↔ _
      cases m.read l <;> simp [Failure.ofFault, Except.mapError]
  | error reason =>
      have hl : ¬ m.geometry.contains l := fun hl => by
        rw [Geometry.check_eq_ok_iff.mpr hl] at hcheck
        cases hcheck
      rw [read, readBits, expectInside, if_neg hl]
      constructor <;> intro heq <;> cases heq

/-- The accesses to an entry, made slice by slice where they write.  A checked write is refused by
the first check that fails, whether or not it is enabled.  An unchecked one goes through when it is
not enabled or when the checked one does, and then leaves the same memory.  What fails leaves the
memory alone. -/
structure AccessesAgree (m : Memory t) (l : Location) (value : Value t) (word : Bits)
    (mask : SliceMask) : Prop where
  tryWrite : ∀ enable, ((tryWriteBySlices l value mask enable).on m).1 =
    (writeRefusal? m.geometry l mask).elim (.ok ()) fun reason => .error (.refused reason)
  write : ∀ next, (writeBySlices l value mask true).on m = (.ok (), next) ↔
    (tryWriteBySlices l value mask true).on m = (.ok (), next)
  disabled : (writeBySlices l value mask false).on m = (.ok (), m) ∧
    ((tryWriteBySlices l value mask false).on m).2 = m
  tryRead : ∀ v, m.tryRead l = .ok v ↔ m.read l = .ok v
  writeBits : ((writeBitsBySlices l word mask).on m).1 =
    (writeFault? m.geometry l word mask).elim (.ok ()) .error
  atomic_tryWrite : ∀ enable e next,
    (tryWriteBySlices l value mask enable).on m = (.error e, next) → next = m
  atomic_write : ∀ enable e next,
    (writeBySlices l value mask enable).on m = (.error e, next) → next = m
  atomic_writeBits : ∀ e next, (writeBitsBySlices l word mask).on m = (.error e, next) → next = m
  bySlices_tryWrite : ∀ enable,
    (tryWriteBySlices l value mask enable).on m = m.settle (m.tryWrite l value mask enable)
  bySlices_write : ∀ enable,
    (writeBySlices l value mask enable).on m = m.settle (m.write l value mask enable)
  bySlices_writeBits : (writeBitsBySlices l word mask).on m = m.settle (m.writeBits l word mask)

/-- In every state that a memory can be brought to, whatever the arguments. -/
theorem accesses_agree (hm : m.Reachable) (l : Location) (value : Value t) (word : Bits)
    (mask : SliceMask) : m.AccessesAgree l value word mask where
  tryWrite enable := by
    rw [on_tryWriteBySlices hm.sound, tryWrite_eq]
    cases hrefusal : writeRefusal? m.geometry l mask with
    | some reason => rfl
    | none =>
        obtain ⟨next, hnext⟩ := exists_write_of_accepted hm.sound hrefusal value enable
        rw [hnext]
        rfl
  write next := by
    rw [on_writeBySlices hm.sound, on_tryWriteBySlices hm.sound, tryWrite_eq]
    cases hrefusal : writeRefusal? m.geometry l mask with
    | some reason =>
        obtain ⟨fault, hfault⟩ := exists_write_of_refused hrefusal value
        rw [hfault]
        constructor <;> intro heq <;> cases heq
    | none =>
        obtain ⟨final, hfinal⟩ := exists_write_of_accepted hm.sound hrefusal value true
        rw [hfinal]
        simp [settle, Failure.ofFault, Except.mapError]
  disabled := by
    rw [on_tryWriteBySlices hm.sound, tryWrite_eq]
    refine ⟨rfl, ?_⟩
    cases writeRefusal? m.geometry l mask <;> rfl
  tryRead _ := tryRead_eq_ok_iff
  writeBits := by
    rw [on_writeBitsBySlices hm.sound]
    cases hfault : writeFault? m.geometry l word mask with
    | some fault =>
        rw [writeBits_eq_fault hfault]
        rfl
    | none =>
        obtain ⟨hl, hword, hmask⟩ := writeFault?_eq_none_iff.mp hfault
        obtain ⟨next, hnext, -⟩ := exists_writeBits_eq_ok hm.sound mask hl hword hmask
        rw [hnext]
        rfl
  atomic_tryWrite enable _ _ h :=
    settle_snd_of_error ((on_tryWriteBySlices hm.sound l value mask enable).symm.trans h)
  atomic_write enable _ _ h :=
    settle_snd_of_error ((on_writeBySlices hm.sound l value mask enable).symm.trans h)
  atomic_writeBits _ _ h :=
    settle_snd_of_error ((on_writeBitsBySlices hm.sound l word mask).symm.trans h)
  bySlices_tryWrite := on_tryWriteBySlices hm.sound l value mask
  bySlices_write := on_writeBySlices hm.sound l value mask
  bySlices_writeBits := on_writeBitsBySlices hm.sound l word mask

/-- At this index the number of the first slot would be `2 ^ 64`, slot 0 if it wrapped. -/
theorem accesses_agree_wrapping :
    ∃ m : Memory .tag12, Memory.new .tag12 ⟨6, 3, 4⟩ = .ok m ∧ m.Reachable ∧
      (tryWriteBySlices (t := .tag12) ⟨0x4000000000000000, 1⟩ (⟨0xABC⟩ : Tag12) (.all 4)
          true).on m =
        (.error (.refused (.indexOutOfRange 0x4000000000000000 2)), m) := by
  have hvalid : (⟨6, 3, 4⟩ : Config).validate ElementType.tag12.width = .ok ⟨2, 3, 4, 12⟩ := rfl
  obtain ⟨m, hnew, hm, hgeometry⟩ := exists_fresh (t := .tag12) hvalid (by decide)
  have hagree := accesses_agree hm ⟨0x4000000000000000, 1⟩ (⟨0xABC⟩ : Tag12) (.zero 12) (.all 4)
  have hrefused := hagree.tryWrite true
  rw [hgeometry] at hrefused
  exact ⟨m, hnew, hm, Prod.ext hrefused (hagree.atomic_tryWrite true _ _ (Prod.ext hrefused rfl))⟩

end BankedStore.Memory
