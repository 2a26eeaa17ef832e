import Mathlib.Algebra.BigOperators.Fin
import BankedStore.Proofs.Bits.WordLoops

/-!
# Joining parts and cutting them apart

Parts are joined in place, each where the one before it ends, and a vector is cut
into pieces of one width.  A joined vector counts each part at the place where the
parts before it end, so joining does not mind empty parts or how the parts are
grouped.  Cutting undoes joining and joining undoes cutting.
-/

namespace BankedStore.Bits

/-! ## Part by part -/

def placeParts (low : Nat) : List Bits → InPlace Unit
  | [] => return
  | part :: parts => do
    setRangeByWords low part
    placeParts (← Size.add low part.width) parts

def concatByWords (parts : List Bits) : Except Fault Bits := do
  let width ← parts.foldlM (fun sum part => Size.add sum part.width) 0
  let (outcome, joined) := (placeParts 0 parts).on (zero width)
  outcome
  return joined

def chunksByWords (b : Bits) (size : Nat) : Except Fault (List Bits) := do
  if size = 0 ∨ b.width % size ≠ 0 then throw (.unevenChunks size b.width)
  (List.range (b.width / size)).mapM fun i => do b.rangeByWords (← Size.mul i size) size

/-! ## Joined vectors -/

theorem append_assoc {low middle high : Bits} (hl : low.WellFormed) (hm : middle.WellFormed)
    (hh : high.WellFormed) : (low.append middle).append high = low.append (middle.append high) := by
  have hlm : (low.append middle).width = low.width + middle.width := rfl
  refine toNat_injective (Nat.add_assoc ..) ?_
  rw [toNat_append (wellFormed_append hl hm) hh, toNat_append hl hm,
    toNat_append hl (wellFormed_append hm hh), toNat_append hm hh, hlm, Nat.pow_add, Nat.mul_add,
    Nat.mul_assoc, Nat.add_assoc]

theorem zero_append {b : Bits} (h : b.WellFormed) : (zero 0).append b = b := by
  refine toNat_injective (Nat.zero_add b.width) ?_
  rw [toNat_append (wellFormed_zero 0) h, toNat_zero, width_zero, Nat.pow_zero, Nat.one_mul,
    Nat.zero_add]

theorem concat_append {xs ys : List Bits} (hx : ∀ x ∈ xs, x.WellFormed)
    (hy : ∀ y ∈ ys, y.WellFormed) : concat (xs ++ ys) = (concat xs).append (concat ys) := by
  induction xs with
  | nil => exact (zero_append (wellFormed_concat hy)).symm
  | cons x xs ih =>
      obtain ⟨hfirst, hrest⟩ := List.forall_mem_cons.mp hx
      change x.append (concat (xs ++ ys)) = (x.append (concat xs)).append (concat ys)
      rw [ih hrest, append_assoc hfirst (wellFormed_concat hrest) (wellFormed_concat hy)]

theorem concat_append_singleton {parts : List Bits} {part : Bits}
    (h : ∀ p ∈ parts, p.WellFormed) (hpart : part.WellFormed) :
    concat (parts ++ [part]) = (concat parts).append part := by
  rw [concat_append h (by simpa using hpart)]
  exact congrArg _ (append_zero hpart)

theorem concat_flatten {lists : List (List Bits)}
    (h : ∀ part ∈ lists.flatten, part.WellFormed) :
    concat (lists.map concat) = concat lists.flatten := by
  induction lists with
  | nil => rfl
  | cons parts lists ih =>
      rw [List.flatten_cons] at h ⊢
      obtain ⟨hfirst, hrest⟩ := List.forall_mem_append.mp h
      rw [concat_append hfirst hrest, ← ih hrest]
      rfl

theorem concat_erase_empty {before after : List Bits} {part : Bits}
    (h : ∀ p ∈ before ++ part :: after, p.WellFormed) (hempty : part.width = 0) :
    concat (before ++ part :: after) = concat (before ++ after) := by
  obtain ⟨hbefore, hrest⟩ := List.forall_mem_append.mp h
  obtain ⟨hpart, hafter⟩ := List.forall_mem_cons.mp hrest
  rw [concat_append hbefore hrest, concat_append hbefore hafter,
    eq_zero_of_width_eq_zero hpart hempty]
  exact congrArg _ (zero_append (wellFormed_concat hafter))

theorem toNat_concat_eq_sum {parts : List Bits} (h : ∀ part ∈ parts, part.WellFormed) :
    (concat parts).toNat =
      ∑ i : Fin parts.length, parts[i].toNat * 2 ^ ((parts.take i).map width).sum := by
  induction parts with
  | nil => exact toNat_zero 0
  | cons part parts ih =>
      obtain ⟨hpart, hparts⟩ := List.forall_mem_cons.mp h
      rw [toNat_concat_cons hpart hparts, ih hparts, Finset.mul_sum]
      refine Eq.trans ?_ (Fin.sum_univ_succ fun i : Fin (parts.length + 1) =>
        (part :: parts)[i].toNat * 2 ^ (((part :: parts).take i).map width).sum).symm
      congr 1
      · exact (Nat.mul_one _).symm
      · refine Finset.sum_congr rfl fun i _ => ?_
        change _ = parts[i].toNat * 2 ^ (part.width + ((parts.take i).map width).sum)
        rw [Nat.pow_add, Nat.mul_left_comm]

/-! ### Joining in place -/

theorem foldlM_add {parts : List Bits} {start : Nat} (hstart : start < Size.limit) :
    parts.foldlM (fun sum part => Size.add sum part.width) start =
      if start + (parts.map width).sum < Size.limit then .ok (start + (parts.map width).sum)
      else .error .overflow := by
  induction parts generalizing start with
  | nil => exact (if_pos hstart).symm
  | cons part parts ih =>
      rw [List.foldlM_cons, List.map_cons, List.sum_cons, ← Nat.add_assoc]
      by_cases h : start + part.width < Size.limit
      · rw [Size.add_eq_ok h, ok_bind, ih h]
      · rw [Size.add, if_neg h, if_neg (by omega)]
        rfl

/-- With the parts `before` in place, the others are put above them. -/
theorem on_placeParts (b : Bits) (before : List Bits) {parts : List Bits}
    (h : ∀ part ∈ before ++ parts, part.WellFormed)
    (hroom : (concat (before ++ parts)).width ≤ b.width) (hfits : b.width < Size.limit) :
    (placeParts (concat before).width parts).on (b.overwrite 0 (concat before)) =
      (.ok (), b.overwrite 0 (concat (before ++ parts))) := by
  -- On the parts that are left.  A round moves the first of them to those in place.
  induction parts generalizing before with
  | nil =>
      rw [List.append_nil]
      rfl
  | cons part parts ih =>
      obtain ⟨hbefore, hrest⟩ := List.forall_mem_append.mp h
      have hpart : part.WellFormed := hrest part List.mem_cons_self
      have hnext := concat_append_singleton hbefore hpart
      have hwidth : (concat (before ++ [part])).width = (concat before).width + part.width := by
        rw [hnext]
        rfl
      have hinside : (concat before).width + part.width ≤ b.width := by
        simp only [width_concat, List.map_append, List.map_cons, List.sum_append,
          List.sum_cons] at hroom ⊢
        omega
      have hset : (b.overwrite 0 (concat before)).setRange (concat before).width part =
          .ok (b.overwrite 0 (concat (before ++ [part]))) := by
        refine setRange_eq_ok_iff.mpr ⟨by omega, hinside, ?_⟩
        have hjoin := overwrite_append b 0 (wellFormed_concat hbefore) hpart
        rwa [Nat.zero_add, ← hnext] at hjoin
      rw [placeParts, on_bind, on_setRangeByWords, hset]
      dsimp only
      rw [List.append_cons before part parts] at h hroom ⊢
      rw [Size.add_eq_ok (by omega), on_lift_bind, ← hwidth]
      exact ih _ h hroom

theorem concatByWords_eq {parts : List Bits} (h : ∀ part ∈ parts, part.WellFormed) :
    concatByWords parts =
      if (parts.map width).sum < Size.limit then .ok (concat parts) else .error .overflow := by
  unfold concatByWords
  rw [foldlM_add (by decide), Nat.zero_add]
  by_cases hfits : (parts.map width).sum < Size.limit
  · have hplace := on_placeParts (zero (parts.map width).sum) [] h
      (by rw [List.nil_append, width_concat, width_zero]) hfits
    rw [List.nil_append, overwrite_zero 0 rfl, ← width_concat,
      zero_overwrite (wellFormed_concat h)] at hplace
    change (placeParts 0 parts).on _ = _ at hplace
    rw [if_pos hfits, if_pos hfits, ok_bind, ← width_concat, hplace]
    rfl
  · rw [if_neg hfits, if_neg hfits]
    rfl

/-! ### Cutting -/

theorem chunksByWords_eq_chunks {b : Bits} (hfits : b.width < Size.limit) (size : Nat) :
    chunksByWords b size = b.chunks size := by
  unfold chunksByWords
  by_cases h : 0 < size ∧ size ∣ b.width
  · obtain ⟨hpos, hdvd⟩ := h
    rw [chunks_eq_ok size hpos hdvd, if_neg (by simp [hpos.ne', Nat.mod_eq_zero_of_dvd hdvd])]
    refine mapM_eq_ok fun i hi => ?_
    have hend : (i + 1) * size ≤ b.width := by
      rw [← Nat.div_mul_cancel hdvd]
      exact Nat.mul_le_mul_right size (List.mem_range.mp hi)
    rw [Nat.succ_mul] at hend
    rw [Size.mul_eq_ok (by omega), ok_bind, rangeByWords_eq_range, range_eq_ok _ hend hfits]
  · rw [Nat.dvd_iff_mod_eq_zero] at h
    unfold chunks
    rw [dif_neg h, if_pos (by omega)]
    rfl

theorem chunks_concat {parts : List Bits} {size : Nat} (hpos : 0 < size)
    (h : ∀ part ∈ parts, part.width = size ∧ part.WellFormed) :
    (concat parts).chunks size = .ok parts := by
  have hwidth : (concat parts).width = parts.length * size :=
    width_concat_of_forall fun p hp => (h p hp).1
  rw [chunks_eq_ok size hpos (Dvd.intro_left _ hwidth.symm), hwidth, Nat.mul_div_cancel _ hpos]
  congr 1
  refine List.ext_getElem (by simp) fun i hi hi' => ?_
  have hsplit : parts.take i ++ parts[i] :: parts.drop (i + 1) = parts := by simp
  have hbefore : (concat (parts.take i)).width = i * size := by
    rw [width_concat_of_forall fun p hp => (h p (List.mem_of_mem_take hp)).1,
      List.length_take_of_le (by omega)]
  have hwf : ∀ p ∈ parts.take i ++ parts[i] :: parts.drop (i + 1), p.WellFormed :=
    fun p hp => (h p (hsplit ▸ hp)).2
  have hfield := field_concat hwf
  rw [hsplit, hbefore, (h _ (List.getElem_mem hi')).1] at hfield
  rw [List.getElem_map, List.getElem_range]
  exact hfield

theorem chunks_eq_error_iff {b : Bits} {size : Nat} :
    (∃ fault, b.chunks size = .error fault) ↔ size = 0 ∨ ¬ size ∣ b.width := by
  rw [Nat.dvd_iff_mod_eq_zero]
  unfold chunks
  split
  · simp
    omega
  · simp
    omega

theorem exists_chunks_eq_ok {b : Bits} (h : b.WellFormed) {size : Nat} (hpos : 0 < size)
    (hdvd : size ∣ b.width) :
    ∃ pieces, b.chunks size = .ok pieces ∧ pieces.length = b.width / size ∧
      (∀ piece ∈ pieces, piece.width = size) ∧ concat pieces = b := by
  refine ⟨_, chunks_eq_ok size hpos hdvd, by simp, fun piece hpiece => ?_, ?_⟩
  · obtain ⟨i, -, rfl⟩ := List.mem_map.mp hpiece
    rfl
  · have hall := concat_field_range b 0 size (b.width / size)
    simp only [Nat.zero_add] at hall
    rw [hall, Nat.div_mul_cancel hdvd, field_self h]

/-! ## Both ways -/

/-- The parts keep their order and their places, empty parts and the grouping of the parts do not
matter, and cutting at the width of the parts gives them back.  Joining in place comes to the same
as long as the width of all can be counted. -/
structure Joins (parts : List Bits) : Prop where
  width : (concat parts).width = (parts.map width).sum
  wellFormed : (concat parts).WellFormed
  value : (concat parts).toNat =
    ∑ i : Fin parts.length, parts[i].toNat * 2 ^ ((parts.take i).map Bits.width).sum
  empty : ∀ before part after, parts = before ++ part :: after → part.width = 0 →
    concat parts = concat (before ++ after)
  grouped : ∀ lists : List (List Bits), lists.flatten = parts →
    concat (lists.map concat) = concat parts
  chunks : ∀ size, 0 < size → (∀ part ∈ parts, part.width = size) →
    (concat parts).chunks size = .ok parts
  byWords : concatByWords parts =
    if (parts.map Bits.width).sum < Size.limit then .ok (concat parts) else .error .overflow

structure Cuts (b : Bits) (size : Nat) : Prop where
  faults : (∃ fault, b.chunks size = .error fault) ↔ size = 0 ∨ ¬ size ∣ b.width
  pieces : 0 < size → size ∣ b.width →
    ∃ pieces, b.chunks size = .ok pieces ∧ pieces.length = b.width / size ∧
      (∀ piece ∈ pieces, piece.width = size) ∧ concat pieces = b
  byWords : b.width < Size.limit → chunksByWords b size = b.chunks size

theorem joins {parts : List Bits} (h : ∀ part ∈ parts, part.WellFormed) : Joins parts where
  width := width_concat parts
  wellFormed := wellFormed_concat h
  value := toNat_concat_eq_sum h
  empty before part after hparts hempty := by
    subst hparts
    exact concat_erase_empty h hempty
  grouped lists hlists := by
    subst hlists
    exact concat_flatten h
  chunks size hpos hsize := chunks_concat hpos fun part hpart => ⟨hsize part hpart, h part hpart⟩
  byWords := concatByWords_eq h

theorem cuts {b : Bits} (h : b.WellFormed) (size : Nat) : b.Cuts size where
  faults := chunks_eq_error_iff
  pieces := exists_chunks_eq_ok h
  byWords hfits := chunksByWords_eq_chunks hfits size

/-- Joining and cutting are inverse to each other. -/
theorem concat_chunks_inverse {parts : List Bits} (hparts : ∀ part ∈ parts, part.WellFormed)
    {b : Bits} (h : b.WellFormed) (size : Nat) : Joins parts ∧ b.Cuts size :=
  ⟨joins hparts, cuts h size⟩

theorem concat_chunks_inverse_uneven :
    (∀ part ∈ [ones 67, zero 0, ones 3], part.WellFormed) ∧ (ones 130).WellFormed ∧
      Joins [ones 67, zero 0, ones 3] ∧ (ones 130).Cuts 65 := by
  have hparts : ∀ part ∈ [ones 67, zero 0, ones 3], part.WellFormed := by decide
  have h : (ones 130).WellFormed := by decide
  exact ⟨hparts, h, concat_chunks_inverse hparts h 65⟩

end BankedStore.Bits
