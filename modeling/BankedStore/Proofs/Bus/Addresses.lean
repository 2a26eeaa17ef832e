import BankedStore.Bus.AddressMap
import BankedStore.Size.Lemmas
import BankedStore.Proofs.Memory.Shape

/-!
# Which word an address names

Word numbers and the entries that a map covers correspond one to one.  Decoding
an address finds the entry of its word, or refuses an address whose word is past
the last one.
-/

namespace BankedStore.AddressMap

variable {map : AddressMap} {g : Geometry}

def word (map : AddressMap) (addr : UInt64) : Nat :=
  addr.toNat / 2 ^ map.offsetBits

def words (map : AddressMap) : Nat :=
  map.entriesPerBank * map.bankCount

def locate (map : AddressMap) (word : Nat) : Location :=
  ⟨word / map.bankCount, word % map.bankCount⟩

def number (map : AddressMap) (l : Location) : Nat :=
  l.index * map.bankCount + l.bank

def Covers (map : AddressMap) (l : Location) : Prop :=
  l.index < map.entriesPerBank ∧ l.bank < map.bankCount

instance (l : Location) : Decidable (map.Covers l) :=
  inferInstanceAs (Decidable (_ ∧ _))

def refusal (map : AddressMap) (addr : UInt64) : BusError :=
  .addressOutOfRange addr map.words

/-- A map for words of some width, with no more banks and entries than the geometry has. -/
structure Within (map : AddressMap) (g : Geometry) : Prop where
  built : ∃ wordWidth < Size.limit, ofParts wordWidth map.bankCount map.entriesPerBank = .ok map
  banks : map.bankCount ≤ g.bankCount
  entries : map.entriesPerBank ≤ g.entriesPerBank

theorem ofParts_eq_ok (wordWidth : Nat) {bankCount : Nat} (hbanks : 0 < bankCount)
    (entries : Nat) :
    ofParts wordWidth bankCount entries =
      .ok ⟨Size.log2Ceil ((wordWidth + 7) / 8), bankCount, entries⟩ := by
  rw [ofParts, if_neg hbanks.ne']

theorem covers_locate (hbanks : 0 < map.bankCount) {w : Nat} (hw : w < map.words) :
    map.Covers (map.locate w) :=
  ⟨(Nat.div_lt_iff_lt_mul hbanks).mpr hw, Nat.mod_lt w hbanks⟩

theorem ofGeometry_eq_ok (hg : g.Consistent) :
    ∃ own, ofGeometry g = .ok own ∧ own.bankCount = g.bankCount ∧
      own.entriesPerBank = g.entriesPerBank ∧ own.Within g := by
  have hown := ofParts_eq_ok g.wordWidth hg.banks_pos g.entriesPerBank
  exact ⟨_, hown, rfl, rfl, ⟨⟨g.wordWidth, hg.width_lt, hown⟩, le_rfl, le_rfl⟩⟩

section Built

variable {wordWidth bankCount entries : Nat}

theorem bankCount_pos_of_ofParts (hbuilt : ofParts wordWidth bankCount entries = .ok map) :
    0 < map.bankCount := by
  unfold ofParts at hbuilt
  split at hbuilt <;> cases hbuilt
  exact Nat.pos_of_ne_zero ‹_›

theorem offsetBits_of_ofParts (hbuilt : ofParts wordWidth bankCount entries = .ok map) :
    map.offsetBits = Size.log2Ceil ((wordWidth + 7) / 8) := by
  unfold ofParts at hbuilt
  split at hbuilt <;> cases hbuilt
  rfl

theorem offsetBits_lt_of_ofParts (hbuilt : ofParts wordWidth bankCount entries = .ok map)
    (hwidth : wordWidth < Size.limit) : map.offsetBits < 64 := by
  have hlog : Size.log2Ceil ((wordWidth + 7) / 8) ≤ 61 := by
    apply Size.log2Ceil_le
    unfold Size.limit UInt64.size at hwidth
    omega
  rw [offsetBits_of_ofParts hbuilt]
  omega

end Built

structure Numbered (map : AddressMap) : Prop where
  bankCount_pos : 0 < map.bankCount
  offsetBits_lt : map.offsetBits < 64
  words_lt : map.words < Size.limit

namespace Numbered

theorem toNat_offsetBits (h : map.Numbered) : map.offsetBits.toUInt64.toNat = map.offsetBits := by
  have hbits := h.offsetBits_lt
  change map.offsetBits % 2 ^ 64 = map.offsetBits
  exact Nat.mod_eq_of_lt (by omega)

theorem toNat_shiftRight (h : map.Numbered) (addr : UInt64) :
    (addr >>> map.offsetBits.toUInt64).toNat = map.word addr := by
  rw [UInt64.toNat_shiftRight, h.toNat_offsetBits, Nat.mod_eq_of_lt h.offsetBits_lt,
    Nat.shiftRight_eq_div_pow, word]

theorem decode_eq (h : map.Numbered) (addr : UInt64) :
    map.decode addr =
      if map.word addr < map.words then .ok (map.locate (map.word addr))
      else .error (.refused (map.refusal addr)) := by
  unfold decode
  rw [h.toNat_shiftRight, capacity, Size.mul_eq_ok h.words_lt]
  rfl

end Numbered

namespace Within

theorem bankCount_pos (h : map.Within g) : 0 < map.bankCount := by
  obtain ⟨wordWidth, -, hbuilt⟩ := h.built
  exact bankCount_pos_of_ofParts hbuilt

theorem words_le (h : map.Within g) : map.words ≤ g.entriesPerBank * g.bankCount :=
  Nat.mul_le_mul h.entries h.banks

theorem numbered (h : map.Within g) (hg : g.Consistent) : map.Numbered := by
  obtain ⟨wordWidth, hwidth, hbuilt⟩ := h.built
  exact ⟨bankCount_pos_of_ofParts hbuilt, offsetBits_lt_of_ofParts hbuilt hwidth,
    Nat.lt_of_le_of_lt h.words_le hg.entries_lt⟩

theorem covers_locate (h : map.Within g) {w : Nat} (hw : w < map.words) :
    map.Covers (map.locate w) :=
  AddressMap.covers_locate h.bankCount_pos hw

theorem contains (h : map.Within g) {l : Location} (hl : map.Covers l) : g.contains l :=
  Geometry.contains_iff.mpr
    ⟨Nat.lt_of_lt_of_le hl.1 h.entries, Nat.lt_of_lt_of_le hl.2 h.banks⟩

theorem decode_eq (h : map.Within g) (hg : g.Consistent) (addr : UInt64) :
    map.decode addr =
      if map.word addr < map.words then .ok (map.locate (map.word addr))
      else .error (.refused (map.refusal addr)) :=
  (h.numbered hg).decode_eq addr

end Within

/-! ## Words and entries -/

@[simp] theorem number_locate (w : Nat) : map.number (map.locate w) = w :=
  Nat.div_add_mod' w map.bankCount

theorem locate_number {l : Location} (hl : map.Covers l) : map.locate (map.number l) = l := by
  rw [locate, number, mul_add_div_of_lt hl.2, Nat.mul_add_mod_of_lt hl.2]

theorem number_lt {l : Location} (hl : map.Covers l) : map.number l < map.words := by
  have hindex := Nat.mul_le_mul_right map.bankCount (Nat.succ_le_of_lt hl.1)
  rw [Nat.succ_mul] at hindex
  have hbank := hl.2
  unfold number words
  omega

theorem locate_inj {v w : Nat} : map.locate v = map.locate w ↔ v = w := by
  constructor
  · intro h
    simpa using congrArg map.number h
  · exact congrArg map.locate

end BankedStore.AddressMap
