import BankedStore.Proofs.Element.Components
import BankedStore.Proofs.Memory.Access

/-!
# Which vectors can be read

Reading a value checks the width of the vector first, and where that is the width
of the type nothing else can fail: every component lies inside the vector and has
the width that its own type asks for.  Colours and tags are read differently at the
top: a colour needs 24 bits or more and a tag no bits at all.
-/

namespace BankedStore

namespace Value

/-! ## Types that insist on their width -/

private theorem expectWidth_bind {α : Type} {b : Bits} {width : Nat} (h : b.width ≠ width)
    (next : Unit → Except Fault α) :
    expectWidth b width >>= next = .error (.wordWidthMismatch b.width width) := by
  rw [expectWidth, if_neg h]
  rfl

theorem unpack_of_width_ne {b : Bits} : (t : ElementType) → t ≠ .rgb → t ≠ .tag12 →
    b.width ≠ t.width → unpack t b = .error (.wordWidthMismatch b.width t.width)
  | .bool, _, _, h | .uint _, _, _, h | .sint _, _, _, h | .float32, _, _, h | .float64, _, _, h
  | .array _ _, _, _, h | .pair _ _, _, _, h | .triple _ _ _, _, _, h => expectWidth_bind h _
  | .rgb, hrgb, _, _ => absurd rfl hrgb
  | .tag12, _, htag, _ => absurd rfl htag

/-- Reading fails on vectors of another width only, and it is the check of the whole vector that
fails there.  Elsewhere every component is read in its place. -/
structure ReadsExactly (t : ElementType) (b : Bits) : Prop where
  fails : (∃ fault, unpack t b = .error fault) ↔ b.width ≠ t.width
  cause : ∀ fault, unpack t b = .error fault → expectWidth b t.width = .error fault
  parts : b.width = t.width → ∃ v, unpack t b = .ok v ∧ ReadInPlace t b v

theorem readsExactly {t : ElementType} {b : Bits} (hfits : t.width < Size.limit)
    (hwf : b.WellFormed) (hrgb : t ≠ .rgb) (htag : t ≠ .tag12) : ReadsExactly t b := by
  by_cases hwidth : b.width = t.width
  · obtain ⟨v, hv, -⟩ := readsBack t hfits hwidth hwf
    exact {
      fails := by simp [hv, hwidth]
      cause := fun fault h => by simp [hv] at h
      parts := fun _ => ⟨v, hv, readInPlace hv⟩ }
  · have hfail := unpack_of_width_ne t hrgb htag hwidth
    exact {
      fails := by simp [hfail, hwidth]
      cause := fun fault h => by
        rw [hfail] at h
        cases h
        rw [expectWidth, if_neg hwidth]
      parts := fun h => absurd h hwidth }

/-! ## Colours and tags -/

def byteAt (b : Bits) (low : Nat) : UInt8 :=
  ⟨(b.field low 8).toBitVec128.setWidth 8⟩

theorem unpackByte_eq (b : Bits) {low : Nat} (hlow : low + 8 < Size.limit) :
    unpackByte b low = if low + 8 ≤ b.width then .ok (byteAt b low)
      else .error (.rangeOutOfBounds low (low + 8) b.width) := by
  unfold unpackByte Bits.range
  rw [if_pos hlow]
  by_cases h : low + 8 ≤ b.width
  · rw [dif_pos h, if_pos h, Bits.extract_eq_field]
    rfl
  · rw [dif_neg h, if_neg h]
    rfl

theorem unpack_rgb_eq (b : Bits) :
    unpack .rgb b = if 24 ≤ b.width then .ok (⟨byteAt b 0, byteAt b 8, byteAt b 16⟩ : Rgb)
      else .error (.rangeOutOfBounds (b.width / 8 * 8) (b.width / 8 * 8 + 8) b.width) := by
  rw [unpack, unpackByte_eq b (by decide), unpackByte_eq b (by decide),
    unpackByte_eq b (by decide)]
  by_cases hblue : 24 ≤ b.width
  · rw [if_pos (by omega), if_pos (by omega), if_pos hblue, if_pos hblue]
    rfl
  · -- The first byte that is not there is the one after all whole bytes.
    rw [if_neg hblue, if_neg hblue]
    by_cases hgreen : 16 ≤ b.width
    · have hbyte : b.width / 8 = 2 := by omega
      rw [if_pos (by omega), if_pos hgreen, hbyte]
      rfl
    · by_cases hred : 8 ≤ b.width
      · have hbyte : b.width / 8 = 1 := by omega
        rw [if_pos (by omega), if_neg hgreen, hbyte]
        rfl
      · have hbyte : b.width / 8 = 0 := by omega
        rw [if_neg (by omega), hbyte]
        rfl

structure ReadsColour (b : Bits) : Prop where
  fails : (∃ fault, unpack .rgb b = .error fault) ↔ b.width < 24
  cause : ∀ fault, unpack .rgb b = .error fault → b.range (b.width / 8 * 8) 8 = .error fault
  low : 24 ≤ b.width → ∃ low, b.range 0 24 = .ok low ∧ unpack .rgb b = unpack .rgb low

theorem readsColour (b : Bits) : ReadsColour b := by
  by_cases h : 24 ≤ b.width
  · have hread := unpack_rgb_eq b
    have hlow : b.range 0 24 = .ok (b.field 0 24) := by
      rw [Bits.range, if_pos (by decide), dif_pos h, Bits.extract_eq_field]
    have hbyte : ∀ low, low + 8 ≤ 24 → byteAt (b.field 0 24) low = byteAt b low := by
      intro low hinside
      rw [byteAt, Bits.field_field b 0 hinside, Nat.zero_add, byteAt]
    rw [if_pos h] at hread
    refine ⟨by simp [hread]; omega, fun fault hfault => by simp [hread] at hfault,
      fun _ => ⟨_, hlow, ?_⟩⟩
    have hwidth : 24 ≤ (b.field 0 24).width := Nat.le_refl 24
    rw [hread, unpack_rgb_eq, if_pos hwidth, hbyte 0 (by decide), hbyte 8 (by decide),
      hbyte 16 (by decide)]
  · have hread := unpack_rgb_eq b
    rw [if_neg h] at hread
    refine ⟨by simp [hread]; omega, fun fault hfault => ?_, fun hwide => absurd hwide h⟩
    rw [hread] at hfault
    cases hfault
    have hlimit : b.width / 8 * 8 + 8 < Size.limit := by
      change _ < 18446744073709551616
      omega
    rw [Bits.range, if_pos hlimit, dif_neg (by omega)]

theorem exists_unpack_tag12 (b : Bits) :
    ∃ tag : Tag12, unpack .tag12 b = .ok tag ∧ tag.raw.toNat = b.toNat % 2 ^ 12 := by
  refine ⟨_, rfl, ?_⟩
  rw [UInt16.toNat_and, UInt64.toNat_toUInt16, Bits.toNat_toUInt64]
  change b.toNat % 2 ^ 64 % 2 ^ 16 &&& (2 ^ 12 - 1) = _
  rw [Nat.and_two_pow_sub_one_eq_mod]
  omega

end Value

namespace Memory

/-- Reading fails on vectors of another width than the type's, a colour on those of fewer than 24
bits and a tag never.  Words of a memory have the width of its type, so a read of an entry inside
does not fail on them. -/
theorem reading_fails_exactly :
    (∀ (t : ElementType) (b : Bits), t.width < Size.limit → b.WellFormed → t ≠ .rgb →
        t ≠ .tag12 → Value.ReadsExactly t b) ∧
      (∀ b, Value.ReadsColour b) ∧
      (∀ b, ∃ tag : Tag12, Value.unpack .tag12 b = .ok tag ∧
        tag.raw.toNat = b.toNat % 2 ^ 12) ∧
      ∀ (t : ElementType) (m : Memory t), m.Reachable → ∀ l, m.geometry.contains l →
        ∃ word value, m.readBits l = .ok word ∧ Value.unpack t word = .ok value ∧
          m.read l = .ok value := by
  refine ⟨fun t b hfits hwf hrgb htag => Value.readsExactly hfits hwf hrgb htag,
    Value.readsColour, Value.exists_unpack_tag12, fun t m hm l hl => ?_⟩
  obtain ⟨value, hread, -⟩ := hm.sound.exists_read_eq_ok hl
  have hbits := hm.sound.readBits_eq_ok hl
  refine ⟨m.wordAt l, value, hbits, ?_, hread⟩
  rw [read, hbits] at hread
  exact hread

private def sparse : ElementType :=
  .triple (.array .rgb 0) (.array .tag12 3) .bool

theorem reading_fails_exactly_sparse :
    Value.ReadsExactly sparse (.ones 38) ∧
      (∃ fault, Value.unpack sparse (.ones 38) = .error fault) ∧
      (∃ value, Value.unpack sparse (.ones 37) = .ok value ∧
        Value.ReadInPlace sparse (.ones 37) value) ∧
      Value.unpack .rgb (.ones 23) = .error (.rangeOutOfBounds 16 24 23) ∧
      ∃ m : Memory sparse, Memory.new sparse ⟨4, 2, 1⟩ = .ok m ∧
        ∃ value, m.read ⟨1, 1⟩ = .ok value := by
  obtain ⟨hexact, hcolour, -, hmemory⟩ := reading_fails_exactly
  have hread : ∀ width, Value.ReadsExactly sparse (.ones width) := fun width =>
    hexact sparse (.ones width) (by decide) (Bits.wellFormed_ofWords ..) (by decide) (by decide)
  obtain ⟨fault, hfault⟩ := (hcolour (.ones 23)).fails.mpr (by decide)
  have hcause := (hcolour (.ones 23)).cause fault hfault
  cases hcause
  have hvalid : (⟨4, 2, 1⟩ : Config).validate sparse.width = .ok ⟨2, 2, 1, 37⟩ := rfl
  obtain ⟨m, hnew, hm, hgeometry⟩ := exists_fresh hvalid (by decide)
  obtain ⟨-, value, -, -, hvalue⟩ := hmemory sparse m hm ⟨1, 1⟩ (by rw [hgeometry]; rfl)
  exact ⟨hread 38, (hread 38).fails.mpr (by decide), (hread 37).parts rfl, hfault, m, hnew, value,
    hvalue⟩

end Memory

end BankedStore
