import Mathlib.Algebra.BigOperators.Group.Finset.Basic
import BankedStore.Proofs.Bank.Slots

/-!
# Windows of a bank

A fresh bank repeats the slices of one entry, appended round after round.  Reading
and assigning go through a window, which is there unless its end overflows or lies
past the last slot; an assignment changes the one slot it names, and a fill all of
them.  So what a slot holds after any edits is what the last edit of it has put
there, or else its part of the pattern.
-/

namespace BankedStore.Bank

variable {b : Bank}

/-! ## Fresh banks -/

def extend (pattern : List Bits) (slices : Array Bits) : Nat → Array Bits
  | 0 => slices
  | rounds + 1 => extend pattern (slices ++ pattern.toArray) rounds

def newByRounds (entries : Nat) (pattern : List Bits) : Except Fault Bank := do
  let _ ← Size.mul entries pattern.length
  return ⟨extend pattern #[] entries⟩

theorem extend_eq (pattern : List Bits) (slices : Array Bits) (rounds : Nat) :
    extend pattern slices rounds =
      slices ++ (Array.replicate rounds pattern.toArray).flatten := by
  induction rounds generalizing slices with
  | zero => simp [extend]
  | succ rounds ih =>
      rw [extend, ih, Array.replicate_succ', Array.flatten_append, Array.append_assoc]
      simp

theorem newByRounds_eq_new (entries : Nat) (pattern : List Bits) :
    newByRounds entries pattern = new entries pattern := by
  rw [newByRounds, extend_eq, Array.empty_append]
  rfl

structure Repeats (entries : Nat) (pattern : List Bits) (b : Bank) : Prop where
  slots : b.slots = entries * pattern.length
  slice : ∀ slot < entries * pattern.length, ∃ slice,
    pattern[slot % pattern.length]? = some slice ∧ b.slice slot = .ok slice
  entry : ∀ i < entries, b.entry (i * pattern.length) pattern.length = .ok pattern

theorem exists_new_repeats {entries : Nat} {pattern : List Bits}
    (hfits : entries * pattern.length < Size.limit) :
    ∃ b, new entries pattern = .ok b ∧ Repeats entries pattern b := by
  obtain ⟨b, hnew, hslots, hslotAt⟩ := new_eq_ok entries pattern hfits
  refine ⟨b, hnew, hslots, fun slot hslot => ?_, fun i hi => ?_⟩
  · have hpos : 0 < pattern.length := Nat.pos_of_mul_pos_left (Nat.zero_lt_of_lt hslot)
    have hmod : slot % pattern.length < pattern.length := Nat.mod_lt _ hpos
    rw [← hslots] at hslot
    refine ⟨_, List.getElem?_eq_getElem hmod, ?_⟩
    rw [slice_eq_ok hslot, hslotAt slot hslot, List.getElem?_eq_getElem hmod]
    rfl
  · have hwindow : i * pattern.length + pattern.length ≤ b.slots := by
      rw [hslots, ← Nat.succ_mul]
      exact Nat.mul_le_mul_right _ hi
    rw [entry_eq_ok hwindow (hslots ▸ hfits)]
    refine congrArg Except.ok (List.ext_getElem (by simp) fun k hk hk' => ?_)
    have hk : k < pattern.length := hk'
    rw [List.getElem_map, List.getElem_range, hslotAt _ (by omega), Nat.mul_add_mod_of_lt hk,
      List.getElem?_eq_getElem hk]
    rfl

/-! ## Windows -/

structure Window (b : Bank) where
  first : Nat
  count : Nat
  inside : first + count ≤ b.slots

def window (b : Bank) (first count : Nat) : Except Fault b.Window :=
  if first + count < Size.limit then
    if h : first + count ≤ b.slots then .ok ⟨first, count, h⟩ else .error .indexOutOfBounds
  else .error .overflow

namespace Window

def toList (w : b.Window) : List Bits :=
  (b.slices.extract w.first (w.first + w.count)).toList

def put (w : b.Window) (offset : Nat) (slice : Bits) : Except Fault Bank :=
  if offset < w.count then .ok ⟨b.slices.setIfInBounds (w.first + offset) slice⟩
  else .error .indexOutOfBounds

end Window

theorem exists_window_eq_error_iff {first count : Nat} :
    (∃ fault, b.window first count = .error fault) ↔
      Size.limit ≤ first + count ∨ b.slots < first + count := by
  unfold window
  split
  · split <;> simp <;> omega
  · simp
    omega

theorem window_eq_ok {first count : Nat} (hfits : first + count < Size.limit)
    (h : first + count ≤ b.slots) : b.window first count = .ok ⟨first, count, h⟩ := by
  rw [window, if_pos hfits, dif_pos h]

theorem entry_eq_window (b : Bank) (first count : Nat) :
    b.entry first count = (b.window first count).map Window.toList := by
  unfold entry checkWindow window
  split
  · split <;> rfl
  · rfl

theorem assign_eq_window (b : Bank) (first count offset : Nat) (slice : Bits) :
    b.assign first count offset slice = (b.window first count).bind (·.put offset slice) := by
  unfold assign checkWindow window
  split
  · split <;> rfl
  · rfl

theorem exists_entry_eq_ok {first count : Nat} (hfits : first + count < Size.limit)
    (h : first + count ≤ b.slots) :
    ∃ slices, b.entry first count = .ok slices ∧ slices.length = count ∧
      ∀ offset < count, ∃ slice,
        slices[offset]? = some slice ∧ b.slice (first + offset) = .ok slice := by
  have hsize : first + count ≤ b.slices.size := h
  refine ⟨_, by rw [entry_eq_window, window_eq_ok hfits h]; rfl, ?_, fun offset hoffset => ?_⟩
  · simp [Window.toList]
    omega
  · have hin : first + offset < b.slots := by omega
    refine ⟨_, ?_, slice_eq_ok hin⟩
    have hin : first + offset < b.slices.size := hin
    simp [Window.toList, slotAt, hin, List.getElem?_take_of_lt hoffset]

theorem exists_assign_eq_error_iff {first count offset : Nat} {slice : Bits} :
    (∃ fault, b.assign first count offset slice = .error fault) ↔
      (∃ fault, b.window first count = .error fault) ∨ count ≤ offset := by
  rw [assign_eq_window]
  unfold window
  split
  · split
    · simp only [Except.bind, Window.put]
      split <;> simp <;> omega
    · simp [Except.bind]
  · simp [Except.bind]

theorem exists_assign_eq_ok {first count offset : Nat} (slice : Bits)
    (hfits : first + count < Size.limit) (h : first + count ≤ b.slots) (hoffset : offset < count) :
    ∃ next, b.assign first count offset slice = .ok next ∧ next.slots = b.slots ∧
      next.slice (first + offset) = .ok slice ∧
      ∀ slot, slot ≠ first + offset → next.slice slot = b.slice slot := by
  refine ⟨⟨b.slices.setIfInBounds (first + offset) slice⟩, ?_, ?_, ?_, fun slot hslot => ?_⟩
  · rw [assign_eq_window, window_eq_ok hfits h]
    exact if_pos hoffset
  · simp [slots]
  · have hin : first + offset < b.slices.size := Nat.lt_of_lt_of_le (by omega) h
    simp [Bank.slice, hin]
  · simp only [Bank.slice]
    rw [Array.getElem?_setIfInBounds_ne (Ne.symm hslot)]

/-! ## Fills -/

def overwrite (slice : Bits) (slices : Array Bits) : Nat → Array Bits
  | 0 => slices
  | slot + 1 => (overwrite slice slices slot).setIfInBounds slot slice

def fillBySlots (b : Bank) (slice : Bits) : Bank :=
  ⟨overwrite slice b.slices b.slots⟩

theorem size_overwrite (slice : Bits) (slices : Array Bits) (count : Nat) :
    (overwrite slice slices count).size = slices.size := by
  induction count with
  | zero => rfl
  | succ count ih => rw [overwrite, Array.size_setIfInBounds, ih]

theorem getElem?_overwrite (slice : Bits) (slices : Array Bits) (count slot : Nat) :
    (overwrite slice slices count)[slot]? =
      if slot < count ∧ slot < slices.size then some slice else slices[slot]? := by
  induction count with
  | zero => simp [overwrite]
  | succ count ih =>
      have hsize : (overwrite slice slices count).size = slices.size := size_overwrite ..
      by_cases hslot : count = slot
      · subst hslot
        rw [overwrite, Array.getElem?_setIfInBounds_self, hsize]
        by_cases hin : count < slices.size <;> simp [hin]
      · rw [overwrite, Array.getElem?_setIfInBounds_ne hslot, ih]
        congr 1
        exact propext ⟨fun h => ⟨by omega, h.2⟩, fun h => ⟨by omega, h.2⟩⟩

theorem fillBySlots_eq_fill (b : Bank) (slice : Bits) : b.fillBySlots slice = b.fill slice := by
  rw [fillBySlots, fill, mk.injEq]
  refine Array.ext (by simp [size_overwrite]) fun slot hslot hslot' => ?_
  have hin : slot < b.slices.size := by simpa using hslot'
  have hput := getElem?_overwrite slice b.slices b.slots slot
  rw [if_pos ⟨hin, hin⟩, Array.getElem?_eq_getElem hslot] at hput
  simpa using hput

/-! ## Edits -/

inductive Edit where
  | assign (first count offset : Nat) (slice : Bits)
  | fill (slice : Bits)
  deriving DecidableEq, Repr

namespace Edit

/-- What comes of an edit, and the bank after it: an edit that faults leaves the one it found. -/
def apply (b : Bank) : Edit → Except Fault Unit × Bank
  | .assign first count offset slice =>
      match b.assign first count offset slice with
      | .ok next => (.ok (), next)
      | .error fault => (.error fault, b)
  | .fill slice => (.ok (), b.fill slice)

def puts? (slots slot : Nat) : Edit → Option Bits
  | .assign first count offset slice =>
      if first + count < Size.limit ∧ first + count ≤ slots ∧ offset < count ∧
          slot = first + offset then some slice else none
  | .fill slice => some slice

end Edit

def run (b : Bank) (edits : List Edit) : Bank :=
  edits.foldl (fun b edit => (edit.apply b).2) b

def lastPut (slots : Nat) (edits : List Edit) (slot : Nat) : Option Bits :=
  edits.reverse.findSome? (Edit.puts? slots slot)

theorem eq_of_apply_eq_error {edit : Edit} {fault : Fault} {next : Bank}
    (h : edit.apply b = (.error fault, next)) : next = b := by
  cases edit with
  | assign first count offset slice =>
      rw [Edit.apply] at h
      split at h <;> cases h
      rfl
  | fill slice => cases h

theorem apply_keeps (b : Bank) (edit : Edit) :
    (edit.apply b).2.slots = b.slots ∧ ∀ slot < b.slots,
      (edit.apply b).2.slice slot =
        ((edit.puts? b.slots slot).map Except.ok).getD (b.slice slot) := by
  cases edit with
  | assign first count offset slice =>
      by_cases h : first + count < Size.limit ∧ first + count ≤ b.slots ∧ offset < count
      · obtain ⟨hfits, hinside, hoffset⟩ := h
        obtain ⟨next, hnext, hslots, hput, hothers⟩ :=
          exists_assign_eq_ok slice hfits hinside hoffset
        rw [Edit.apply, hnext]
        refine ⟨hslots, fun slot _ => ?_⟩
        by_cases hslot : slot = first + offset
        · rw [Edit.puts?, if_pos ⟨hfits, hinside, hoffset, hslot⟩, hslot]
          exact hput
        · rw [Edit.puts?, if_neg fun hc => hslot hc.2.2.2]
          exact hothers slot hslot
      · obtain ⟨fault, hfault⟩ : ∃ fault, b.assign first count offset slice = .error fault := by
          rw [exists_assign_eq_error_iff, exists_window_eq_error_iff]
          omega
        rw [Edit.apply, hfault]
        refine ⟨rfl, fun slot _ => ?_⟩
        rw [Edit.puts?, if_neg fun hc => h ⟨hc.1, hc.2.1, hc.2.2.1⟩]
        rfl
  | fill slice =>
      refine ⟨slots_fill b slice, fun slot hslot => ?_⟩
      rw [← slots_fill b slice] at hslot
      rw [Edit.apply, slice_eq_ok hslot, slotAt_fill slice (slots_fill b slice ▸ hslot)]
      rfl

theorem run_keeps (b : Bank) (edits : List Edit) :
    (b.run edits).slots = b.slots ∧ ∀ slot < b.slots,
      (b.run edits).slice slot =
        ((lastPut b.slots edits slot).map Except.ok).getD (b.slice slot) := by
  -- The first edit is the last one that the search comes to.
  induction edits generalizing b with
  | nil => exact ⟨rfl, fun slot _ => rfl⟩
  | cons edit edits ih =>
      obtain ⟨hslots, hslice⟩ := apply_keeps b edit
      obtain ⟨hkept, hrest⟩ := ih (edit.apply b).2
      rw [hslots] at hkept hrest
      refine ⟨hkept, fun slot hslot => (hrest slot hslot).trans ?_⟩
      rw [hslice slot hslot, lastPut, lastPut, List.reverse_cons, List.findSome?_append]
      cases edits.reverse.findSome? (Edit.puts? b.slots slot) <;> simp

/-! ## Storage -/

def sumWidths (b : Bank) : Except Fault Nat :=
  b.slices.toList.foldlM (fun total slice => Size.add total slice.width) 0

theorem memoryBits_eq_sum (b : Bank) :
    b.memoryBits = ∑ slot ∈ Finset.range b.slots, (b.slotAt slot).width := by
  obtain ⟨slices⟩ := b
  simp only [memoryBits, slotAt, slots, ← Array.getElem?_toList, ← Array.length_toList]
  induction slices.toList with
  | nil => rfl
  | cons slice slices ih =>
      rw [List.foldr_cons, ih, List.length_cons, Finset.sum_range_succ', Nat.add_comm]
      rfl

private theorem foldlM_add_width (slices : List Bits) {total : Nat} (htotal : total < Size.limit) :
    slices.foldlM (fun total slice => Size.add total slice.width) total =
      if total + slices.foldr (fun slice rest => slice.width + rest) 0 < Size.limit then
        Except.ok (total + slices.foldr (fun slice rest => slice.width + rest) 0)
      else .error .overflow := by
  induction slices generalizing total with
  | nil => exact (if_pos htotal).symm
  | cons slice slices ih =>
      rw [List.foldlM_cons, List.foldr_cons, ← Nat.add_assoc]
      by_cases hadd : total + slice.width < Size.limit
      · rw [Size.add_eq_ok hadd]
        exact ih hadd
      · rw [Size.add, if_neg hadd, if_neg (by omega)]
        rfl

theorem sumWidths_eq (b : Bank) :
    b.sumWidths = if b.memoryBits < Size.limit then .ok b.memoryBits else .error .overflow := by
  have h := foldlM_add_width b.slices.toList (by decide : 0 < Size.limit)
  rwa [Nat.zero_add] at h

/-! ## Banks that are edited -/

structure Windowed (b : Bank) : Prop where
  window_fails : ∀ first count, (∃ fault, b.window first count = .error fault) ↔
    Size.limit ≤ first + count ∨ b.slots < first + count
  entry_fails : ∀ first count, (∃ fault, b.entry first count = .error fault) ↔
    Size.limit ≤ first + count ∨ b.slots < first + count
  entry : ∀ {first count}, first + count < Size.limit → first + count ≤ b.slots →
    ∃ slices, b.entry first count = .ok slices ∧ slices.length = count ∧
      ∀ offset < count, ∃ slice,
        slices[offset]? = some slice ∧ b.slice (first + offset) = .ok slice
  assign_eq : ∀ first count offset slice,
    b.assign first count offset slice = (b.window first count).bind (·.put offset slice)
  assign_fails : ∀ first count offset slice,
    (∃ fault, b.assign first count offset slice = .error fault) ↔
      (∃ fault, b.window first count = .error fault) ∨ count ≤ offset
  assign : ∀ {first count offset} slice, first + count < Size.limit → first + count ≤ b.slots →
    offset < count → ∃ next, b.assign first count offset slice = .ok next ∧
      next.slots = b.slots ∧ next.slice (first + offset) = .ok slice ∧
      ∀ slot, slot ≠ first + offset → next.slice slot = b.slice slot
  fault_keeps : ∀ {edit fault next}, Edit.apply b edit = (.error fault, next) → next = b
  fill : ∀ slice, b.fillBySlots slice = b.fill slice ∧ (b.fill slice).slots = b.slots ∧
    ∀ slot < b.slots, (b.fill slice).slice slot = .ok slice
  memory : b.memoryBits = ∑ slot ∈ Finset.range b.slots, (b.slotAt slot).width
  summed : b.sumWidths = if b.memoryBits < Size.limit then .ok b.memoryBits else .error .overflow

theorem windowed (b : Bank) : b.Windowed where
  window_fails _ _ := exists_window_eq_error_iff
  entry_fails first count := by
    rw [← exists_window_eq_error_iff, entry_eq_window]
    cases b.window first count <;> simp [Except.map]
  entry := exists_entry_eq_ok
  assign_eq := assign_eq_window b
  assign_fails _ _ _ _ := exists_assign_eq_error_iff
  assign := exists_assign_eq_ok
  fault_keeps := eq_of_apply_eq_error
  fill slice := by
    refine ⟨fillBySlots_eq_fill b slice, slots_fill b slice, fun slot hslot => ?_⟩
    rw [slice_eq_ok (slots_fill b slice ▸ hslot), slotAt_fill slice hslot]
  memory := memoryBits_eq_sum b
  summed := sumWidths_eq b

/-- A fresh bank repeats its pattern, and any edits leave as many slots.  Each has what the last
edit of it put there or else its part of the pattern, whatever the edits of other slots, and the
bank they leave is read and changed like any other. -/
theorem windows_isolated {entries : Nat} {pattern : List Bits}
    (hfits : entries * pattern.length < Size.limit) :
    ∃ start, newByRounds entries pattern = .ok start ∧ new entries pattern = .ok start ∧
      Repeats entries pattern start ∧
      ∀ edits : List Edit,
        (start.run edits).slots = entries * pattern.length ∧
        (∀ slot < entries * pattern.length, ∃ slice,
          (lastPut (entries * pattern.length) edits slot).or pattern[slot % pattern.length]? =
              some slice ∧
            (start.run edits).slice slot = .ok slice) ∧
        (start.run edits).Windowed := by
  obtain ⟨start, hnew, hrepeats⟩ := exists_new_repeats hfits
  refine ⟨start, (newByRounds_eq_new entries pattern).trans hnew, hnew, hrepeats, fun edits => ?_⟩
  obtain ⟨hslots, hslice⟩ := run_keeps start edits
  rw [hrepeats.slots] at hslots hslice
  refine ⟨hslots, fun slot hslot => ?_, windowed _⟩
  obtain ⟨fresh, hpattern, hfresh⟩ := hrepeats.slice slot hslot
  rw [hslice slot hslot, hpattern, hfresh]
  cases lastPut (entries * pattern.length) edits slot with
  | none => exact ⟨fresh, rfl, rfl⟩
  | some slice => exact ⟨slice, rfl, rfl⟩

private def mixedPattern : List Bits :=
  [.ofNat 8 0xAA, .ofNat 3 5, .zero 0]

private def mixedEdits : List Edit :=
  [.assign 2 4 0 (.ones 70), .assign 3 3 1 (.ofNat 3 1), .assign 8 3 0 (.zero 1),
    .assign 3 3 3 (.zero 1)]

theorem windows_isolated_mixed :
    3 * mixedPattern.length < Size.limit ∧
      ∃ start, new 3 mixedPattern = .ok start ∧ start.entry 6 3 = .ok mixedPattern ∧
        (start.run mixedEdits).slice 2 = .ok (.ones 70) ∧
        (start.run mixedEdits).slice 3 = .ok (.ofNat 8 0xAA) ∧
        (start.run mixedEdits).slice 4 = .ok (.ofNat 3 1) ∧
        (start.run mixedEdits).slice 5 = .ok (.zero 0) ∧
        ∃ fault, (start.run mixedEdits).window 8 3 = .error fault := by
  have hfits : 3 * mixedPattern.length < Size.limit := by decide
  obtain ⟨start, -, hnew, hrepeats, hedited⟩ := windows_isolated hfits
  obtain ⟨hslots, hslices, hwindowed⟩ := hedited mixedEdits
  have holds : ∀ {slot slice}, slot < 3 * mixedPattern.length →
      (lastPut (3 * mixedPattern.length) mixedEdits slot).or
        mixedPattern[slot % mixedPattern.length]? = some slice →
      (start.run mixedEdits).slice slot = .ok slice := by
    intro slot slice hslot hput
    obtain ⟨held, hheld, hslice⟩ := hslices slot hslot
    cases hheld.symm.trans hput
    exact hslice
  exact ⟨hfits, start, hnew, hrepeats.entry 2 (by decide), holds (by decide) rfl,
    holds (by decide) rfl, holds (by decide) rfl, holds (by decide) rfl,
    (hwindowed.window_fails 8 3).mpr (.inr (by rw [hslots]; decide))⟩

end BankedStore.Bank
