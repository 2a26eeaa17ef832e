import BankedStore.Bits.Lemmas

/-!
# Joining neighbouring fields

`field` is a run of bits of a vector, whether or not it lies inside.  Fields that
lie side by side join to the field that covers them, so cutting a vector into
equal chunks and joining them gives it back.  The other way round a part lies in
the joined vector right above the parts before it; among parts of one width, bit
`i` is in part `i / width`.
-/

namespace BankedStore.Bits

/-- The `width` bits from `low` on, zero where the vector has none. -/
def field (b : Bits) (low width : Nat) : Bits :=
  ofNat width (b.toNat / 2 ^ low)

@[simp] theorem width_zero (width : Nat) : (zero width).width = width := rfl

@[simp] theorem width_field (b : Bits) (low width : Nat) : (b.field low width).width = width :=
  rfl

theorem wellFormed_field (b : Bits) (low width : Nat) : (b.field low width).WellFormed :=
  wellFormed_ofWords ..

theorem toNat_field (b : Bits) (low width : Nat) :
    (b.field low width).toNat = b.toNat / 2 ^ low % 2 ^ width :=
  toNat_ofNat ..

theorem testBit_toNat_field (b : Bits) (low width i : Nat) :
    (b.field low width).toNat.testBit i = (decide (i < width) && b.toNat.testBit (low + i)) := by
  rw [toNat_field, Nat.testBit_mod_two_pow, Nat.testBit_div_two_pow, Nat.add_comm]

theorem field_field (b : Bits) (low : Nat) {width inner n : Nat} (h : inner + n ≤ width) :
    (b.field low width).field inner n = b.field (low + inner) n := by
  refine toNat_injective rfl (Nat.eq_of_testBit_eq fun i => ?_)
  rw [testBit_toNat_field, testBit_toNat_field, testBit_toNat_field, Nat.add_assoc]
  by_cases hi : i < n
  · rw [decide_eq_true (by omega : inner + i < width), Bool.true_and]
  · simp [hi]

theorem field_zero (size low width : Nat) : (zero size).field low width = zero width := by
  refine toNat_injective rfl ?_
  rw [toNat_field, toNat_zero, toNat_zero, Nat.zero_div, Nat.zero_mod]

theorem extract_eq_field {b : Bits} {low width : Nat} (h : low + width ≤ b.width) :
    b.extract low width h = b.field low width := by
  refine toNat_injective rfl ?_
  rw [toNat_extract, toNat_field]

theorem range_eq_ok {b : Bits} (low : Nat) {width : Nat} (h : low + width ≤ b.width)
    (hfits : b.width < Size.limit) : b.range low width = .ok (b.field low width) := by
  unfold range
  rw [if_pos (by omega), dif_pos h, extract_eq_field]

theorem eq_zero_of_width_eq_zero {b : Bits} (h : b.WellFormed) (hwidth : b.width = 0) :
    b = zero 0 := by
  refine toNat_injective hwidth ?_
  have hlt := wellFormed_iff_lt.mp h
  rw [hwidth] at hlt
  rw [toNat_zero]
  omega

theorem append_zero {b : Bits} (h : b.WellFormed) : b.append (zero 0) = b := by
  refine toNat_injective rfl ?_
  rw [toNat_append h (wellFormed_zero 0), toNat_zero, Nat.mul_zero, Nat.add_zero]

theorem ofNat_toNat {b : Bits} (h : b.WellFormed) : ofNat b.width b.toNat = b := by
  refine toNat_injective rfl ?_
  rw [toNat_ofNat, Nat.mod_eq_of_lt (wellFormed_iff_lt.mp h)]

theorem field_self {b : Bits} (h : b.WellFormed) : b.field 0 b.width = b := by
  rw [field, Nat.pow_zero, Nat.div_one, ofNat_toNat h]

theorem field_append_field (b : Bits) (low first second : Nat) :
    (b.field low first).append (b.field (low + first) second) =
      b.field low (first + second) := by
  refine toNat_injective rfl ?_
  rw [toNat_append (wellFormed_field ..) (wellFormed_field ..), toNat_field, toNat_field,
    toNat_field, width_field, Nat.pow_add 2 low first, ← Nat.div_div_eq_div_mul,
    Nat.pow_add 2 first second]
  exact Nat.mod_mul.symm

theorem testBit_toNat_append {low high : Bits} (hl : low.WellFormed) (hh : high.WellFormed)
    (i : Nat) :
    (low.append high).toNat.testBit i =
      if i < low.width then low.toNat.testBit i else high.toNat.testBit (i - low.width) := by
  rw [toNat_append hl hh, Nat.add_comm,
    Nat.testBit_two_pow_mul_add _ (wellFormed_iff_lt.mp hl)]

theorem overwrite_append (b : Bits) (low : Nat) {first second : Bits} (hf : first.WellFormed)
    (hs : second.WellFormed) :
    (b.overwrite low first).overwrite (low + first.width) second =
      b.overwrite low (first.append second) := by
  have hwidth : (b.overwrite low first).width = b.width := rfl
  have hjoined : (first.append second).width = first.width + second.width := rfl
  refine toNat_injective rfl (Nat.eq_of_testBit_eq fun i => ?_)
  rw [testBit_toNat_overwrite, testBit_toNat_overwrite, testBit_toNat_overwrite,
    testBit_toNat_append hf hs, hwidth, hjoined, Nat.sub_sub]
  grind

theorem zero_overwrite {part : Bits} (h : part.WellFormed) :
    (zero part.width).overwrite 0 part = part := by
  refine toNat_injective rfl (Nat.eq_of_testBit_eq fun i => ?_)
  rw [testBit_toNat_overwrite, toNat_zero, Nat.zero_testBit, width_zero]
  unfold wordCount
  by_cases hi : i < part.width
  · rw [if_pos (by omega), Nat.sub_zero]
  · rw [if_neg (by omega), wellFormed_iff.mp h i (by omega)]

theorem concat_field_pair {b : Bits} (h : b.WellFormed) {first second : Nat}
    (hwidth : b.width = first + second) :
    concat [b.field 0 first, b.field first second] = b := by
  have hjoin := field_append_field b 0 first second
  rw [Nat.zero_add, ← hwidth, field_self h] at hjoin
  change append _ (append _ (zero 0)) = b
  rw [append_zero (wellFormed_field ..), hjoin]

theorem concat_field_triple {b : Bits} (h : b.WellFormed) {first second third : Nat}
    (hwidth : b.width = first + second + third) :
    concat [b.field 0 first, b.field first second, b.field (first + second) third] = b := by
  have hpair := concat_field_pair h (hwidth.trans (Nat.add_assoc ..))
  change append _ (append _ (zero 0)) = b at hpair
  change append _ (append _ (append _ (zero 0))) = b
  rw [append_zero (wellFormed_field ..)] at hpair ⊢
  rw [field_append_field, hpair]

theorem concat_field_range (b : Bits) (low width count : Nat) :
    concat ((List.range count).map fun i => b.field (low + i * width) width) =
      b.field low (count * width) := by
  induction count generalizing low with
  | zero =>
      symm
      exact eq_zero_of_width_eq_zero (wellFormed_field ..) (Nat.zero_mul width)
  | succ count ih =>
      have htail := ih (low + width)
      rw [List.range_succ_eq_map, List.map_cons, List.map_map, Nat.zero_mul, Nat.add_zero]
      have hshift : ((fun i => b.field (low + i * width) width) ∘ Nat.succ) =
          fun i => b.field (low + width + i * width) width := by
        funext i
        change b.field (low + (i + 1) * width) width = _
        rw [Nat.succ_mul, Nat.add_comm (i * width), Nat.add_assoc]
      change append _ (concat _) = _
      rw [hshift, htail, field_append_field, Nat.succ_mul, Nat.add_comm width]

theorem width_concat_of_forall {parts : List Bits} {width : Nat}
    (h : ∀ part ∈ parts, part.width = width) :
    (concat parts).width = parts.length * width := by
  induction parts with
  | nil => simp [concat]
  | cons part parts ih =>
      change part.width + (concat parts).width = (parts.length + 1) * width
      rw [h part (by simp), ih fun p hp => h p (List.mem_cons_of_mem part hp), Nat.succ_mul,
        Nat.add_comm]

theorem testBit_toNat_concat {parts : List Bits} {width : Nat} (hpos : 0 < width)
    (h : ∀ part ∈ parts, part.width = width ∧ part.WellFormed) (i : Nat) :
    (concat parts).toNat.testBit i =
      (parts[i / width]?.map fun part => part.toNat.testBit (i % width)).getD false := by
  induction parts generalizing i with
  | nil =>
      change (zero 0).toNat.testBit i = _
      simp [toNat_zero]
  | cons part parts ih =>
      obtain ⟨hwidth, hwf⟩ := h part (by simp)
      have htail : ∀ p ∈ parts, p.width = width ∧ p.WellFormed :=
        fun p hp => h p (List.mem_cons_of_mem part hp)
      change (part.append (concat parts)).toNat.testBit i = _
      rw [testBit_toNat_append hwf (wellFormed_concat fun p hp => (htail p hp).2), hwidth]
      by_cases hi : i < width
      · simp [hi, Nat.div_eq_of_lt hi, Nat.mod_eq_of_lt hi]
      · have hdiv : i / width = (i - width) / width + 1 := Nat.div_eq_sub_div hpos (by omega)
        have hmod : i % width = (i - width) % width := Nat.mod_eq_sub_mod (by omega)
        rw [if_neg hi, ih htail, hdiv, hmod, List.getElem?_cons_succ]

theorem field_append_low {low high : Bits} (hl : low.WellFormed) (hh : high.WellFormed) :
    (low.append high).field 0 low.width = low := by
  refine toNat_injective rfl ?_
  rw [toNat_field, toNat_append hl hh, Nat.pow_zero, Nat.div_one, Nat.add_mul_mod_self_left,
    Nat.mod_eq_of_lt (wellFormed_iff_lt.mp hl)]

theorem field_append_high {low high : Bits} (hl : low.WellFormed) (hh : high.WellFormed)
    (start width : Nat) :
    (low.append high).field (low.width + start) width = high.field start width := by
  have hpos : 0 < 2 ^ low.width := Nat.two_pow_pos low.width
  refine toNat_injective rfl ?_
  rw [toNat_field, toNat_field, toNat_append hl hh, Nat.pow_add, ← Nat.div_div_eq_div_mul,
    Nat.add_mul_div_left _ _ hpos, Nat.div_eq_of_lt (wellFormed_iff_lt.mp hl), Nat.zero_add]

theorem field_concat {before after : List Bits} {part : Bits}
    (h : ∀ p ∈ before ++ part :: after, p.WellFormed) :
    (concat (before ++ part :: after)).field (concat before).width part.width = part := by
  induction before with
  | nil =>
      exact field_append_low (h part (by simp))
        (wellFormed_concat fun p hp => h p (List.mem_cons_of_mem part hp))
  | cons first before ih =>
      have hrest : ∀ p ∈ before ++ part :: after, p.WellFormed :=
        fun p hp => h p (List.mem_cons_of_mem first hp)
      exact (field_append_high (h first (by simp)) (wellFormed_concat hrest) _ _).trans (ih hrest)

theorem range_concat (before : List Bits) {after : List Bits} {part : Bits} {low width : Nat}
    (hlow : (concat before).width = low) (hwidth : part.width = width)
    (h : ∀ p ∈ before ++ part :: after, p.WellFormed)
    (hfits : (concat (before ++ part :: after)).width < Size.limit) :
    (concat (before ++ part :: after)).range low width = .ok part := by
  subst hlow hwidth
  have hinside : (concat before).width + part.width ≤
      (concat (before ++ part :: after)).width := by
    simp only [width_concat, List.map_append, List.map_cons, List.sum_append, List.sum_cons]
    omega
  rw [range_eq_ok _ hinside hfits, field_concat h]

theorem chunks_eq_ok {b : Bits} (size : Nat) (hpos : 0 < size) (hdvd : size ∣ b.width) :
    b.chunks size =
      .ok ((List.range (b.width / size)).map fun i => b.field (i * size) size) := by
  unfold chunks
  rw [dif_pos ⟨hpos, Nat.mod_eq_zero_of_dvd hdvd⟩]
  congr 1
  apply List.ext_getElem
  · simp
  · intro i hi hi'
    simp [extract_eq_field]

end BankedStore.Bits
