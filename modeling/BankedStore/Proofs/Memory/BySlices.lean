import BankedStore.Proofs.Memory.Access

/-!
# Writes, slice by slice

`writeBits` gives the memory after a write at once.  Here the slices of the word are
put in their slots one a round, by steps that can go wrong: a piece is cut out, the
mask is asked for its bit, a slot of the entry's window is assigned.  What a failure
leaves behind can be seen.  All that can go wrong is ruled out by the checks before
the first round, so a write that fails has put nothing.
-/

namespace BankedStore

namespace Bank

def commitOne (b : Bank) (first : Nat) (mask : SliceMask) (i : Nat) (slice : Bits) : Bank :=
  if mask.allows i then ⟨b.slices.setIfInBounds (first + i) slice⟩ else b

@[simp] theorem slots_commitOne (b : Bank) (first : Nat) (mask : SliceMask) (i : Nat)
    (slice : Bits) : (b.commitOne first mask i slice).slots = b.slots := by
  unfold commitOne
  split <;> simp [slots]

def commitFrom (b : Bank) (first : Nat) (mask : SliceMask) (i : Nat) : List Bits → Bank
  | [] => b
  | slice :: slices => (b.commitOne first mask i slice).commitFrom first mask (i + 1) slices

theorem foldl_eq_commitFrom (b : Bank) (first : Nat) (mask : SliceMask) (i : Nat)
    (slices : List Bits) :
    Bank.mk ((slices.zipIdx i).foldl (fun stored (slice, i) =>
      if mask.allows i then stored.setIfInBounds (first + i) slice else stored) b.slices) =
      b.commitFrom first mask i slices := by
  induction slices generalizing b i with
  | nil => rfl
  | cons slice slices ih =>
      rw [List.zipIdx_cons, List.foldl_cons, commitFrom, ← ih]
      congr 2
      by_cases hallow : mask.allows i <;> simp [commitOne, hallow]

theorem commit_eq_commitFrom {b : Bank} {first : Nat} {mask : SliceMask} {slices : List Bits}
    (h : first + mask.length ≤ b.slots) (hfits : b.slots < Size.limit) :
    b.commit first mask slices = .ok (b.commitFrom first mask 0 slices) := by
  rw [commit, checkWindow_eq_ok h hfits, ← foldl_eq_commitFrom]
  rfl

end Bank

namespace Memory

variable {ε : Type} {t : ElementType}

abbrev InPlace (ε : Type) (t : ElementType) := ExceptT ε (StateM (Memory t))

def InPlace.on {α : Type} (work : InPlace ε t α) (m : Memory t) : Except ε α × Memory t :=
  (work.run.run m).run

def withBank (m : Memory t) (i : Nat) (bank : Bank) : Memory t :=
  { m with banks := m.banks.setIfInBounds i bank }

/-! ## The loop -/

def putSlice (bank first i : Nat) (slice : Bits) : InPlace Fault t Unit := do
  let m ← get
  let written ← (← m.bank bank).assign first m.geometry.byteEnables i slice
  set (m.withBank bank written)

def putChosen (bank first : Nat) (word : Bits) (mask : SliceMask) (i : Nat) :
    InPlace Fault t Unit := do
  let width := (← get).geometry.sliceWidth
  let slice ← word.range (← Size.mul i width) width
  if ← mask.isSet i then putSlice bank first i slice

def putSlices (bank first : Nat) (word : Bits) (mask : SliceMask) (i : Nat) :
    Nat → InPlace Fault t Unit
  | 0 => return
  | rounds + 1 => do
    putChosen bank first word mask i
    putSlices bank first word mask (i + 1) rounds

def expectWritable (m : Memory t) (l : Location) (word : Bits) (mask : SliceMask) :
    Except Fault Unit := do
  m.expectInside l
  Value.expectWidth word m.geometry.wordWidth
  if mask.length ≠ m.geometry.byteEnables then
    throw (.maskLengthMismatch mask.length m.geometry.byteEnables)

def writeBitsBySlices (l : Location) (word : Bits) (mask : SliceMask) :
    InPlace Fault t Unit := do
  let m ← get
  m.expectWritable l word mask
  let first ← m.geometry.slot l.index 0
  (← m.bank l.bank).checkWindow first m.geometry.byteEnables
  let width := m.geometry.sliceWidth
  if width = 0 ∨ word.width % width ≠ 0 then throw (.unevenChunks width word.width)
  putSlices l.bank first word mask 0 (min m.geometry.byteEnables (word.width / width))

def writeBySlices (l : Location) (value : Value t) (mask : SliceMask) (enable : Bool) :
    InPlace Fault t Unit := do
  if enable then writeBitsBySlices l (value.pack t) mask

def tryWriteBySlices (l : Location) (value : Value t) (mask : SliceMask) (enable : Bool) :
    InPlace (Failure Rejection) t Unit := do
  let m ← get
  Failure.ofRefusal (m.geometry.check l)
  if mask.length ≠ m.geometry.byteEnables then
    throw (.refused (.maskLengthMismatch mask.length m.geometry.byteEnables))
  ExceptT.adapt .fault (writeBySlices l value mask enable)

/-! ## Single steps -/

section Steps

variable {α β : Type} {m : Memory t}

theorem on_bind (work : InPlace ε t α) (next : α → InPlace ε t β) (m : Memory t) :
    InPlace.on (work >>= next) m =
      match work.on m with
      | (.ok value, m') => (next value).on m'
      | (.error e, m') => (.error e, m') := by
  change ExceptT.bindCont next (work.on m).1 (work.on m).2 = _
  rcases work.on m with ⟨⟨e⟩ | ⟨value⟩, m'⟩ <;> rfl

theorem on_get_bind (next : Memory t → InPlace ε t β) :
    InPlace.on (get >>= next) m = (next m).on m :=
  rfl

theorem on_lift_bind (value : α) (next : α → InPlace ε t β) :
    InPlace.on (liftM (.ok value : Except ε α) >>= next) m = (next value).on m :=
  rfl

theorem on_lift_error_bind (e : ε) (next : α → InPlace ε t β) :
    InPlace.on (liftM (.error e : Except ε α) >>= next) m = (.error e, m) :=
  rfl

theorem on_adapt {δ : Type} (f : ε → δ) (work : InPlace ε t α) :
    InPlace.on (ExceptT.adapt f work) m = ((work.on m).1.mapError f, (work.on m).2) :=
  rfl

end Steps

/-! ## One round -/

section Rounds

variable {m : Memory t} {bank : Nat}

theorem withBank_withBank (b b' : Bank) :
    (m.withBank bank b).withBank bank b' = m.withBank bank b' := by
  simp [withBank]

theorem withBank_bankAt (m : Memory t) (i : Nat) : m.withBank i (m.bankAt i) = m := by
  have hbanks : m.banks.setIfInBounds i (m.bankAt i) = m.banks := by
    refine Array.ext (by simp) fun j hj hj' => ?_
    by_cases hij : i = j
    · subst hij
      simp [bankAt, hj']
    · simp [Array.getElem_setIfInBounds_ne, hij, hj']
  rw [withBank, hbanks]

theorem bank_withBank (hbank : bank < m.banks.size) (b : Bank) :
    (m.withBank bank b).bank bank = .ok b := by
  simp [Memory.bank, withBank, hbank]

variable {first i : Nat} {b : Bank}

theorem on_putSlice (hbank : bank < m.banks.size) (hi : i < m.geometry.byteEnables)
    (hwindow : first + m.geometry.byteEnables ≤ b.slots) (hfits : b.slots < Size.limit)
    (slice : Bits) :
    (putSlice bank first i slice).on (m.withBank bank b) =
      (.ok (), m.withBank bank ⟨b.slices.setIfInBounds (first + i) slice⟩) := by
  have hassign : b.assign first m.geometry.byteEnables i slice =
      .ok ⟨b.slices.setIfInBounds (first + i) slice⟩ := by
    rw [Bank.assign, Bank.checkWindow_eq_ok hwindow hfits]
    change (if i < m.geometry.byteEnables then _ else _) = _
    rw [if_pos hi]
    rfl
  unfold putSlice
  rw [on_get_bind, bank_withBank hbank, on_lift_bind]
  change InPlace.on (liftM (b.assign first m.geometry.byteEnables i slice) >>= _) _ = _
  rw [hassign, on_lift_bind]
  change (Except.ok (), (m.withBank bank b).withBank bank _) = _
  rw [withBank_withBank]

theorem on_putChosen (h : m.Sound) (hbank : bank < m.geometry.bankCount) {word : Bits}
    (hword : word.width = m.geometry.wordWidth) {mask : SliceMask}
    (hmask : mask.length = m.geometry.byteEnables) (hi : i < m.geometry.byteEnables)
    (hwindow : first + m.geometry.byteEnables ≤ b.slots) (hfits : b.slots < Size.limit) :
    (putChosen bank first word mask i).on (m.withBank bank b) =
      (.ok (), m.withBank bank (b.commitOne first mask i
        (word.field (i * m.geometry.sliceWidth) m.geometry.sliceWidth))) := by
  have hwidth := h.consistent.width_lt
  have hpiece : i * m.geometry.sliceWidth + m.geometry.sliceWidth ≤ word.width := by
    rw [hword, ← h.consistent.slices, ← Nat.succ_mul]
    exact Nat.mul_le_mul_right _ hi
  have hgeometry : (m.withBank bank b).geometry = m.geometry := rfl
  unfold putChosen
  rw [on_get_bind, hgeometry]
  dsimp only
  rw [Size.mul_eq_ok (by omega), on_lift_bind, Bits.range_eq_ok _ hpiece (by omega), on_lift_bind,
    SliceMask.isSet, if_pos (by omega), on_lift_bind, Bank.commitOne]
  by_cases hallow : mask.allows i
  · rw [if_pos hallow, if_pos hallow]
    exact on_putSlice (h.banks ▸ hbank) hi hwindow hfits _
  · rw [if_neg hallow, if_neg hallow]
    rfl

end Rounds

/-! ## Whole writes -/

theorem on_putSlices {m : Memory t} (h : m.Sound) {bank first : Nat}
    (hbank : bank < m.geometry.bankCount) {word : Bits}
    (hword : word.width = m.geometry.wordWidth) {mask : SliceMask}
    (hmask : mask.length = m.geometry.byteEnables) (rounds i : Nat)
    (hi : i + rounds = m.geometry.byteEnables) {b : Bank}
    (hwindow : first + m.geometry.byteEnables ≤ b.slots) (hfits : b.slots < Size.limit) :
    (putSlices bank first word mask i rounds).on (m.withBank bank b) =
      (.ok (), m.withBank bank (b.commitFrom first mask i ((List.range' i rounds).map fun i =>
        word.field (i * m.geometry.sliceWidth) m.geometry.sliceWidth))) := by
  -- On the rounds that are left: each starts from a bank with the slices before `i` committed.
  induction rounds generalizing i b with
  | zero => rfl
  | succ rounds ih =>
      rw [putSlices, on_bind, on_putChosen h hbank hword hmask (by omega) hwindow hfits]
      exact ih (i + 1) (by omega) (by simpa using hwindow) (by simpa using hfits)

section Writes

variable {m : Memory t}

theorem expectWritable_eq (m : Memory t) (l : Location) (word : Bits) (mask : SliceMask) :
    m.expectWritable l word mask =
      (writeFault? m.geometry l word mask).elim (.ok ()) .error := by
  unfold expectWritable writeFault? expectInside Value.expectWidth
  by_cases hl : m.geometry.contains l
  · by_cases hword : word.width = m.geometry.wordWidth
    · by_cases hmask : mask.length = m.geometry.byteEnables <;> simp [hl, hword, hmask] <;> rfl
    · simp [hl, hword]
      rfl
  · simp [hl]
    rfl

/-- How a call ends that gives the next memory, and the memory then: a failed call keeps it. -/
def settle (m : Memory t) : Except ε (Memory t) → Except ε Unit × Memory t
  | .ok next => (.ok (), next)
  | .error e => (.error e, m)

theorem settle_snd_of_error {x : Except ε (Memory t)} {e : ε} {next : Memory t}
    (h : m.settle x = (.error e, next)) : next = m := by
  cases x <;> cases h
  rfl

theorem on_writeBitsBySlices (h : m.Sound) (l : Location) (word : Bits) (mask : SliceMask) :
    (writeBitsBySlices l word mask).on m = m.settle (m.writeBits l word mask) := by
  have hchecks := m.expectWritable_eq l word mask
  unfold writeBitsBySlices
  rw [on_get_bind]
  cases hfault : writeFault? m.geometry l word mask with
  | some fault =>
      rw [hfault, Option.elim_some] at hchecks
      rw [hchecks, on_lift_error_bind, writeBits_eq_fault hfault]
      rfl
  | none =>
      obtain ⟨hl, hword, hmask⟩ := writeFault?_eq_none_iff.mp hfault
      obtain ⟨hindex, hbank⟩ := Geometry.contains_iff.mp hl
      have hwindow := h.window_le hl
      have hfits := h.slots_lt hbank
      have hpos := h.consistent.sliceWidth_pos
      have heven := Nat.mod_eq_zero_of_dvd h.consistent.sliceWidth_dvd
      have hloop := on_putSlices h hbank hword hmask m.geometry.byteEnables 0 (Nat.zero_add _)
        hwindow hfits
      rw [withBank_bankAt, ← List.range_eq_range'] at hloop
      rw [hfault, Option.elim_none] at hchecks
      rw [hchecks, on_lift_bind, h.consistent.slot_eq_ok hindex h.consistent.enables_pos,
        on_lift_bind, h.bank_eq_ok hbank, on_lift_bind, Nat.add_zero,
        Bank.checkWindow_eq_ok hwindow hfits, on_lift_bind]
      dsimp only
      rw [if_neg (by rw [hword]; omega), hword, h.consistent.wordWidth_div, Nat.min_self, hloop,
        writeBits_eq_commit h mask hl hword hmask,
        Bank.commit_eq_commitFrom (by rw [hmask]; exact hwindow) hfits]
      rfl

theorem on_writeBySlices (h : m.Sound) (l : Location) (value : Value t) (mask : SliceMask)
    (enable : Bool) :
    (writeBySlices l value mask enable).on m = m.settle (m.write l value mask enable) := by
  cases enable with
  | false => rfl
  | true => exact on_writeBitsBySlices h l (value.pack t) mask

theorem on_tryWriteBySlices (h : m.Sound) (l : Location) (value : Value t) (mask : SliceMask)
    (enable : Bool) :
    (tryWriteBySlices l value mask enable).on m = m.settle (m.tryWrite l value mask enable) := by
  unfold tryWriteBySlices tryWrite
  rw [on_get_bind]
  cases m.geometry.check l with
  | error e => rfl
  | ok =>
      change InPlace.on (if mask.length ≠ m.geometry.byteEnables then _ else _) m =
        m.settle (if mask.length = m.geometry.byteEnables then _ else _)
      by_cases hmask : mask.length = m.geometry.byteEnables
      · rw [if_neg (not_not.mpr hmask), if_pos hmask]
        rw [on_adapt, on_writeBySlices h]
        cases m.write l value mask enable <;> rfl
      · rw [if_pos hmask, if_neg hmask]
        rfl

end Writes

end Memory

end BankedStore
