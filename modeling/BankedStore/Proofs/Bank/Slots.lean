import Mathlib.Algebra.Order.Ring.Nat
import BankedStore.Bank

/-!
# Slots of a bank

What each operation of a bank does to its slots.  A fresh bank repeats the slices
of one entry, a window is a run of neighbouring slots, a commit replaces the
chosen slots of its window, and a fill replaces all of them.  No operation
changes how many slots there are.
-/

namespace BankedStore.Bank

/-- The slice in a slot, or an empty one past the end. -/
def slotAt (b : Bank) (slot : Nat) : Bits :=
  b.slices[slot]?.getD (.zero 0)

theorem slice_eq_ok {b : Bank} {slot : Nat} (h : slot < b.slots) :
    b.slice slot = .ok (b.slotAt slot) := by
  have h : slot < b.slices.size := h
  simp [slice, slotAt, h]

theorem eq_of_slotAt {b c : Bank} (hslots : b.slots = c.slots)
    (h : ∀ slot < b.slots, b.slotAt slot = c.slotAt slot) : b = c := by
  obtain ⟨xs⟩ := b
  obtain ⟨ys⟩ := c
  congr 1
  refine Array.ext hslots fun slot hx hy => ?_
  simpa [slotAt, hx, hy] using h slot hx

theorem checkWindow_eq_ok {b : Bank} {first count : Nat} (h : first + count ≤ b.slots)
    (hfits : b.slots < Size.limit) : b.checkWindow first count = .ok () := by
  rw [checkWindow, if_pos (by omega), if_pos h]

/-! ## Fresh banks -/

private theorem flatten_replicate (count : Nat) (pattern : Array Bits) (slot : Nat) :
    (Array.replicate count pattern).flatten[slot]? =
      if slot < count * pattern.size then pattern[slot % pattern.size]? else none := by
  induction count with
  | zero => simp
  | succ count ih =>
      have hsize : (Array.replicate count pattern).flatten.size = count * pattern.size := by
        simp [Array.size_flatten]
      rw [Array.replicate_succ, Array.flatten_push, Array.getElem?_append, hsize, ih,
        Nat.succ_mul]
      by_cases hlow : slot < count * pattern.size
      · rw [if_pos hlow, if_pos hlow, if_pos (by omega)]
      · rw [if_neg hlow]
        by_cases hhigh : slot < count * pattern.size + pattern.size
        · have hmod : slot % pattern.size = slot - count * pattern.size := by
            rw [Nat.mul_comm] at hlow ⊢
            rw [← Nat.sub_mul_mod (by omega : pattern.size * count ≤ slot)]
            exact Nat.mod_eq_of_lt (by rw [Nat.mul_comm] at hhigh; omega)
          rw [if_pos hhigh, hmod]
        · rw [if_neg hhigh, Array.getElem?_eq_none (by omega)]

theorem new_eq_error {entries : Nat} {pattern : List Bits}
    (h : ¬ entries * pattern.length < Size.limit) :
    Bank.new entries pattern = .error .overflow := by
  rw [Bank.new, Size.mul, if_neg h]
  rfl

theorem new_eq_ok (entries : Nat) (pattern : List Bits)
    (hfits : entries * pattern.length < Size.limit) :
    ∃ b, Bank.new entries pattern = .ok b ∧ b.slots = entries * pattern.length ∧
      ∀ slot < b.slots, b.slotAt slot = pattern[slot % pattern.length]?.getD (.zero 0) := by
  refine ⟨⟨(Array.replicate entries pattern.toArray).flatten⟩, ?_, ?_, ?_⟩
  · rw [Bank.new, Size.mul_eq_ok hfits]
    rfl
  · simp [slots, Array.size_flatten]
  · intro slot hslot
    have hslot : slot < entries * pattern.length := by
      simpa [slots, Array.size_flatten] using hslot
    change ((Array.replicate entries pattern.toArray).flatten[slot]?).getD _ = _
    rw [flatten_replicate]
    simp [hslot]

/-! ## Windows -/

theorem entry_eq_ok {b : Bank} {first count : Nat} (h : first + count ≤ b.slots)
    (hfits : b.slots < Size.limit) :
    b.entry first count = .ok ((List.range count).map fun i => b.slotAt (first + i)) := by
  rw [entry, checkWindow_eq_ok h hfits]
  change Except.ok (b.slices.extract first (first + count)).toList = _
  congr 1
  have h : first + count ≤ b.slices.size := h
  apply List.ext_getElem
  · simp
    omega
  · intro i hi hi'
    have hin : first + i < b.slices.size := by
      simp at hi'
      omega
    simp [slotAt, hin]

private theorem foldl_commit (mask : SliceMask) (first : Nat) (entry : List Bits) (start : Nat)
    (stored : Array Bits) (slot : Nat) :
    ((entry.zipIdx start).foldl
        (fun stored (slice, i) =>
          if mask.allows i then stored.setIfInBounds (first + i) slice else stored) stored)[slot]? =
      if first + start ≤ slot ∧ slot < first + start + entry.length ∧ mask.allows (slot - first) ∧
          slot < stored.size then
        entry[slot - first - start]?
      else stored[slot]? := by
  induction entry generalizing start stored with
  | nil =>
      rw [if_neg (by simp; omega)]
      rfl
  | cons slice entry ih =>
      rw [List.zipIdx_cons, List.foldl_cons, ih]
      by_cases hhere : slot = first + start
      · subst hhere
        rw [if_neg (by omega)]
        by_cases hallow : mask.allows start
        · by_cases hin : first + start < stored.size <;> simp [hallow, hin]
        · simp [hallow]
      · have hkeep : (if mask.allows start then stored.setIfInBounds (first + start) slice
            else stored)[slot]? = stored[slot]? := by
          split
          · rw [Array.getElem?_setIfInBounds_ne (Ne.symm hhere)]
          · rfl
        have hsize : (if mask.allows start then stored.setIfInBounds (first + start) slice
            else stored).size = stored.size := by
          split <;> simp
        simp only [hkeep, hsize, List.length_cons]
        by_cases hbelow : first + start ≤ slot
        · have hstep : slot - first - start = slot - first - (start + 1) + 1 := by omega
          rw [hstep, List.getElem?_cons_succ]
          congr 1
          simp only [eq_iff_iff]
          constructor <;> rintro ⟨h1, h2, h3, h4⟩ <;> exact ⟨by omega, by omega, h3, h4⟩
        · rw [if_neg (by omega), if_neg (by omega)]

private theorem size_foldl_commit (mask : SliceMask) (first : Nat) (parts : List (Bits × Nat))
    (stored : Array Bits) :
    (parts.foldl (fun stored (slice, i) =>
        if mask.allows i then stored.setIfInBounds (first + i) slice else stored) stored).size =
      stored.size := by
  induction parts generalizing stored with
  | nil => rfl
  | cons part parts ih =>
      obtain ⟨slice, i⟩ := part
      rw [List.foldl_cons, ih]
      dsimp only
      split <;> simp

theorem commit_eq_ok (b : Bank) (first : Nat) (mask : SliceMask) (entry : List Bits)
    (h : first + mask.length ≤ b.slots) (hfits : b.slots < Size.limit)
    (hentry : entry.length = mask.length) :
    ∃ written, b.commit first mask entry = .ok written ∧ written.slots = b.slots ∧
      ∀ slot < b.slots, written.slotAt slot =
        if first ≤ slot ∧ mask.allows (slot - first) then entry[slot - first]?.getD (.zero 0)
        else b.slotAt slot := by
  have hfold := foldl_commit mask first entry 0 b.slices
  refine ⟨⟨entry.zipIdx.foldl (fun stored (slice, i) =>
    if mask.allows i then stored.setIfInBounds (first + i) slice else stored) b.slices⟩, ?_, ?_, ?_⟩
  · rw [commit, checkWindow_eq_ok h hfits]
    rfl
  · exact size_foldl_commit mask first _ _
  · intro slot hslot
    have hslot : slot < b.slices.size := hslot
    rw [slotAt, hfold]
    by_cases hchosen : first ≤ slot ∧ mask.allows (slot - first)
    · have hin := SliceMask.lt_length_of_allows hchosen.2
      rw [if_pos ⟨by omega, by omega, hchosen.2, hslot⟩, if_pos hchosen, Nat.sub_zero]
    · rw [if_neg fun hc => hchosen ⟨by omega, hc.2.2.1⟩, if_neg hchosen]
      rfl

/-! ## Fills -/

@[simp] theorem slots_fill (b : Bank) (slice : Bits) : (b.fill slice).slots = b.slots := by
  simp [fill, slots]

theorem slotAt_fill {b : Bank} (slice : Bits) {slot : Nat} (h : slot < b.slots) :
    (b.fill slice).slotAt slot = slice := by
  have h : slot < b.slices.size := h
  simp [fill, slotAt, h]

end BankedStore.Bank
