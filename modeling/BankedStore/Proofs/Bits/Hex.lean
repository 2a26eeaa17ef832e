import Mathlib.Algebra.Order.Floor.Div
import BankedStore.Bits.Text
import BankedStore.Proofs.Bits.Chunking
import BankedStore.Proofs.Bits.Values
import BankedStore.Proofs.Text.Numerals

/-!
# The written form of a vector

A vector is written with one hex digit for every four bits of its width, the highest
first, and the digits spell its value.  Together with the width they tell the vector,
so the written form reads back and no two vectors share one.
-/

namespace BankedStore.Bits

variable {b : Bits}

/-! ## Digits -/

theorem nibble_eq (h : b.WellFormed) (i : Nat) : b.nibble i = b.toNat / 16 ^ i % 16 := by
  have hpow : 16 ^ i = 2 ^ (4 * i) := by rw [pow_mul]; rfl
  have hbit : ∀ j, (b.toNat / 16 ^ i % 16).testBit j =
      (decide (j < 4) && b.toNat.testBit (4 * i + j)) := fun j => by
    rw [hpow, show 16 = 2 ^ 4 from rfl, Nat.testBit_mod_two_pow, Nat.testBit_div_two_pow,
      Nat.add_comm]
  refine Nat.eq_of_testBit_eq fun j => ?_
  rw [wellFormed_iff] at h
  rw [hbit, nibble]
  split
  · rename_i hlow
    change (b.chunk (4 * i) (min 4 (b.width - 4 * i)) _).toBitVec.getLsbD j = _
    rw [getLsbD_chunk _ (by omega)]
    by_cases hj : 4 * i + j < b.width
    · have hsame : j < min 4 (b.width - 4 * i) ↔ j < 4 := by omega
      simp only [hsame]
    · simp [h (4 * i + j) (by omega)]
  · simp [h (4 * i + j) (by omega)]

theorem nibble_lt (h : b.WellFormed) (i : Nat) : b.nibble i < 16 := by
  rw [nibble_eq h]
  exact Nat.mod_lt _ (by decide)

@[simp]
theorem toList_hex (b : Bits) : b.hex.toList = b.hexDigits :=
  String.toList_ofList

@[simp]
theorem length_hexDigits (b : Bits) : b.hexDigits.length = hexLength b.width := by
  simp [hexDigits]

theorem toNat_lt_sixteen_pow (h : b.WellFormed) : b.toNat < 16 ^ hexLength b.width := by
  have hle : b.width ≤ 4 * hexLength b.width := by unfold hexLength; omega
  calc
    b.toNat < 2 ^ b.width := wellFormed_iff_lt.mp h
    _ ≤ 2 ^ (4 * hexLength b.width) := Nat.pow_le_pow_right (by decide) hle
    _ = 16 ^ hexLength b.width := by rw [pow_mul]; rfl

theorem spells_hexDigits (h : b.WellFormed) : Numeral.Spells 16 b.hexDigits b.value := by
  refine ⟨(List.range (hexLength b.width)).reverse.map b.nibble, ?_, ?_⟩
  · rw [hexDigits, List.forall₂_map_left_iff, List.forall₂_map_right_iff, List.forall₂_same]
    exact fun i _ => ⟨nibble_lt h i, .inl rfl⟩
  · have hnibbles : b.nibble = fun i => b.toNat / 16 ^ i % 16 := funext (nibble_eq h)
    rw [← List.map_reverse, List.reverse_reverse, hnibbles, Numeral.ofDigits_map_range,
      Nat.mod_eq_of_lt (toNat_lt_sixteen_pow h), value_eq_toNat h]

theorem mem_hexDigits (h : b.WellFormed) {c : Char} (hc : c ∈ b.hexDigits) :
    c ∈ "0123456789abcdef".toList := by
  obtain ⟨i, -, rfl⟩ := List.mem_map.mp hc
  have hlt := nibble_lt h i
  generalize b.nibble i = digit at hlt
  interval_cases digit <;> decide

/-! ## Reading back -/

theorem toList_text (b : Bits) :
    b.text.toList = Nat.toDigits 10 b.width ++ '\'' :: 'h' :: b.hexDigits := by
  simp [text]

theorem span_text (b : Bits) :
    b.text.toList.span (· ≠ '\'') = (Nat.toDigits 10 b.width, '\'' :: 'h' :: b.hexDigits) := by
  have hquote : Numeral.digit? 10 '\'' = none := by decide
  obtain ⟨hbefore, hafter⟩ := Numeral.toDigits_ends (by decide) (by decide) hquote b.width
    ('h' :: b.hexDigits)
  rw [toList_text, List.span_eq_takeWhile_dropWhile, hbefore, hafter]

theorem ofText?_text (h : b.WellFormed) : ofText? b.text = some b := by
  have hwidth : Numeral.ofDigits? 10 (Nat.toDigits 10 b.width) = some b.width :=
    Numeral.ofDigits?_toDigits (by decide) (by decide) b.width
  have hvalue := Numeral.ofDigits?_of_spells (by decide) (spells_hexDigits h)
  have hclear : b.value >>> b.width = 0 := by rw [value_eq_toNat h]; exact h
  have hback : ofNat b.width b.value = b := by rw [value_eq_toNat h, ofNat_toNat h]
  simp only [ofText?, span_text]
  simp [hwidth, hvalue, hclear, hback]

/-! ## Piece by piece -/

def hexByPieces (b : Bits) : Except Fault (List Char) := do
  let pieces ← (List.range (hexLength b.width)).reverse.mapM fun i => do
    let low ← Size.mul i 4
    b.loadPiece low (min (b.width - low) 4)
  return pieces.flatMap fun piece => Nat.toDigits 16 piece.toNat

theorem loadPiece_eq_nibble {i : Nat} (hlow : 4 * i ≤ b.width) :
    b.loadPiece (4 * i) (min (b.width - 4 * i) 4) = .ok (.ofNat (b.nibble i)) := by
  rw [loadPiece_eq_ok (by omega) (by omega), nibble, dif_pos hlow, UInt64.ofNat_toNat]
  simp only [Nat.min_comm]

theorem hexByPieces_eq (h : b.WellFormed) (hfits : b.width < Size.limit) :
    b.hexByPieces = .ok b.hexDigits := by
  unfold hexByPieces
  have hpieces : (List.range (hexLength b.width)).reverse.mapM (fun i => do
      let low ← Size.mul i 4
      b.loadPiece low (min (b.width - low) 4)) =
      .ok ((List.range (hexLength b.width)).reverse.map fun i => .ofNat (b.nibble i)) := by
    refine mapM_eq_ok fun i hi => ?_
    have hlow : i * 4 ≤ b.width := by
      have hi : i < hexLength b.width := by simpa using hi
      unfold hexLength at hi
      omega
    rw [Size.mul_eq_ok (by omega), ok_bind, Nat.mul_comm]
    exact loadPiece_eq_nibble (by omega)
  have hdigit : ∀ i, Nat.toDigits 16 (UInt64.ofNat (b.nibble i)).toNat =
      [(b.nibble i).digitChar] := fun i => by
    have hlt := nibble_lt h i
    rw [UInt64.toNat_ofNat_of_lt' (by rw [UInt64.size]; omega), Nat.toDigits_of_lt_base hlt]
  rw [hpieces, ok_bind, hexDigits, List.flatMap_map, List.map_eq_flatMap]
  simp only [hdigit]
  rfl

/-! ## Vectors and their texts -/

structure Written (b : Bits) : Prop where
  length : b.hex.toList.length = max 1 (b.width ⌈/⌉ 4)
  lowercase : ∀ c ∈ b.hex.toList, c ∈ "0123456789abcdef".toList
  spells : Numeral.Spells 16 b.hex.toList b.value
  prefixed : b.prefixedHex.toList = '0' :: 'x' :: b.hex.toList
  text : b.text.toList = Nat.toDigits 10 b.width ++ '\'' :: 'h' :: b.hex.toList
  reads : ofText? b.text = some b
  byPieces : b.width < Size.limit → b.hexByPieces = .ok b.hex.toList

theorem WellFormed.written (h : b.WellFormed) : b.Written where
  length := by simp [hexLength, Nat.ceilDiv_eq_add_pred_div]
  lowercase c hc := mem_hexDigits h (toList_hex b ▸ hc)
  spells := by simpa using spells_hexDigits h
  prefixed := by simp [prefixedHex]
  text := by simp [toList_text]
  reads := ofText?_text h
  byPieces hfits := by simpa using hexByPieces_eq h hfits

/-- Whatever its width, a vector is written with its width and the hex digits of its value, and the
text tells it from all others. -/
theorem hex_faithful (h : b.WellFormed) :
    b.Written ∧ ∀ c : Bits, c.WellFormed → c.text = b.text → c = b := by
  refine ⟨h.written, fun c hc hsame => ?_⟩
  have hread := hc.written.reads
  rw [hsame, h.written.reads] at hread
  exact (Option.some.inj hread).symm

theorem hex_faithful_partial :
    (ones 65).WellFormed ∧ (ones 65).Written ∧ (ones 65).text = "65'h1ffffffffffffffff" ∧
      ∀ c : Bits, c.WellFormed → c.text = "65'h1ffffffffffffffff" → c = ones 65 := by
  have hformed : (ones 65).WellFormed := wellFormed_ofWords ..
  have htext : (ones 65).text = "65'h1ffffffffffffffff" := by decide +kernel
  obtain ⟨hwritten, hunique⟩ := hex_faithful hformed
  rw [htext] at hunique
  exact ⟨hformed, hwritten, htext, hunique⟩

end BankedStore.Bits
