import Mathlib.Algebra.Order.Floor.Div
import Mathlib.GroupTheory.GroupAction.Ring
import BankedStore.Proofs.Bus.Addresses

/-!
# Addresses of entries

Decoding finds the entry that an address lies in, and encoding gives the first
address of an entry.  An address that is decoded and encoded again goes back to the
first byte of its word.  An entry that is encoded and decoded again comes back as
long as its first address is below `2 ^ 64`; past that the address loses its high
bits.  In a memory whose bits can be counted no entry lies that far.
-/

namespace BankedStore.AddressMap

variable {map : AddressMap}

/-! ## The bytes of a word -/

theorem isLeast_two_pow_offsetBits {wordWidth bankCount entries : Nat}
    (hbuilt : ofParts wordWidth bankCount entries = .ok map) :
    IsLeast {bytes | (∃ k, bytes = 2 ^ k) ∧ max 1 (wordWidth ⌈/⌉ 8) ≤ bytes}
      (2 ^ map.offsetBits) := by
  have hbits : map.offsetBits = Size.log2Ceil (wordWidth ⌈/⌉ 8) := offsetBits_of_ofParts hbuilt
  rw [hbits]
  constructor
  · exact ⟨⟨_, rfl⟩, max_le Nat.one_le_two_pow (Size.le_two_pow_log2Ceil _)⟩
  · rintro bytes ⟨⟨k, rfl⟩, hle⟩
    exact Nat.pow_le_pow_right (by decide) (Size.log2Ceil_le (le_trans (le_max_right ..) hle))

theorem two_pow_offsetBits_le {wordWidth bankCount entries : Nat}
    (hbuilt : ofParts wordWidth bankCount entries = .ok map) (hpos : 0 < wordWidth) :
    2 ^ map.offsetBits ≤ wordWidth := by
  rw [offsetBits_of_ofParts hbuilt]
  by_cases hbyte : wordWidth ≤ 8
  · have hone : (wordWidth + 7) / 8 = 1 := by omega
    rw [hone]
    exact hpos
  · have hdouble := Size.two_pow_log2Ceil_le (n := (wordWidth + 7) / 8) (by omega)
    omega

namespace Numbered

theorem toNat_wordStride (h : map.Numbered) : map.wordStride.toNat = 2 ^ map.offsetBits := by
  have hpow : 2 ^ map.offsetBits < 2 ^ 64 := Nat.pow_lt_pow_right (by decide) h.offsetBits_lt
  rw [wordStride, UInt64.toNat_shiftLeft, h.toNat_offsetBits, Nat.mod_eq_of_lt h.offsetBits_lt,
    UInt64.toNat_one, Nat.one_shiftLeft, Nat.mod_eq_of_lt hpow]

theorem toNat_div_wordStride (h : map.Numbered) (addr : UInt64) :
    (addr / map.wordStride).toNat = map.word addr := by
  rw [UInt64.toNat_div, h.toNat_wordStride, word]

theorem toNat_wordStart (h : map.Numbered) (addr : UInt64) :
    (addr - addr % map.wordStride).toNat = map.word addr * 2 ^ map.offsetBits := by
  have hle : addr % map.wordStride ≤ addr := by
    rw [UInt64.le_iff_toNat_le, UInt64.toNat_mod]
    exact Nat.mod_le ..
  have hsplit := Nat.div_add_mod' addr.toNat (2 ^ map.offsetBits)
  rw [UInt64.toNat_sub_of_le _ _ hle, UInt64.toNat_mod, h.toNat_wordStride, word]
  omega

end Numbered

/-! ## There and back -/

/-- The number of the first byte of an entry, whether or not an address can be that large. -/
def position (map : AddressMap) (l : Location) : Nat :=
  map.number l * map.wordStride.toNat

namespace Numbered

theorem exists_encode_eq_ok (h : map.Numbered) {l : Location} (hl : map.Covers l) :
    ∃ addr, map.encode l = .ok addr ∧ addr.toNat = map.position l % 2 ^ 64 := by
  have hnumber : map.number l < Size.limit := Nat.lt_trans (number_lt hl) h.words_lt
  have hindex : l.index * map.bankCount < Size.limit :=
    Nat.lt_of_le_of_lt (Nat.le_add_right ..) hnumber
  have hword : (map.number l).toUInt64.toNat = map.number l := Nat.mod_eq_of_lt hnumber
  refine ⟨(map.number l).toUInt64 <<< map.offsetBits.toUInt64, ?_, ?_⟩
  · rw [encode, Size.mul_eq_ok hindex]
    change (do
      let word ← Size.add (l.index * map.bankCount) l.bank
      return word.toUInt64 <<< map.offsetBits.toUInt64) = _
    rw [Size.add_eq_ok hnumber]
    rfl
  · rw [UInt64.toNat_shiftLeft, h.toNat_offsetBits, Nat.mod_eq_of_lt h.offsetBits_lt, hword,
      Nat.shiftLeft_eq, position, h.toNat_wordStride]

theorem decode_eq_ok_iff (h : map.Numbered) {addr : UInt64} {l : Location}
    (hl : map.Covers l) : map.decode addr = .ok l ↔ map.word addr = map.number l := by
  rw [h.decode_eq]
  constructor
  · intro hdecode
    split at hdecode <;> cases hdecode
    exact (number_locate _).symm
  · intro hword
    rw [hword, if_pos (number_lt hl), locate_number hl]

/-- A position that loses its high bits lands in another word. -/
theorem word_eq_number_iff (h : map.Numbered) {l : Location} {addr : UInt64}
    (haddr : addr.toNat = map.position l % 2 ^ 64) :
    map.word addr = map.number l ↔ map.position l < 2 ^ 64 := by
  have hstride := h.toNat_wordStride
  constructor
  · intro hword
    have hle : map.word addr * 2 ^ map.offsetBits ≤ addr.toNat := Nat.div_mul_le_self ..
    rw [hword, ← hstride] at hle
    exact Nat.lt_of_le_of_lt hle addr.toNat_lt
  · intro hfits
    rw [word, haddr, Nat.mod_eq_of_lt hfits, position, hstride,
      Nat.mul_div_cancel _ (Nat.two_pow_pos _)]

end Numbered

structure Decodes (map : AddressMap) (addr : UInt64) : Prop where
  refused : map.decode addr =
      .error (.refused (.addressOutOfRange addr (map.entriesPerBank * map.bankCount))) ↔
    map.entriesPerBank * map.bankCount ≤ (addr / map.wordStride).toNat
  found : (addr / map.wordStride).toNat < map.entriesPerBank * map.bankCount →
    ∃ l, map.decode addr = .ok l ∧ l.index < map.entriesPerBank ∧ l.bank < map.bankCount ∧
      l.index * map.bankCount + l.bank = (addr / map.wordStride).toNat ∧
      map.encode l = .ok (addr - addr % map.wordStride)

/-- An entry has an address, from which it comes back if and only if its position is one.  A larger
position loses its high bits. -/
structure Encodes (map : AddressMap) (l : Location) (addr : UInt64) : Prop where
  encode : map.encode l = .ok addr
  low : addr.toNat = map.position l % 2 ^ 64
  whole : addr.toNat = map.position l ↔ map.position l < 2 ^ 64
  decode : map.decode addr = .ok l ↔ map.position l < 2 ^ 64

namespace Numbered

theorem decodes (h : map.Numbered) (addr : UInt64) : map.Decodes addr where
  refused := by
    rw [h.decode_eq, h.toNat_div_wordStride]
    by_cases hin : map.word addr < map.words
    · rw [if_pos hin]
      simpa [words] using hin
    · rw [if_neg hin]
      simpa [refusal, words] using hin
  found hin := by
    rw [h.toNat_div_wordStride] at hin ⊢
    change map.word addr < map.words at hin
    have hcovers := covers_locate h.bankCount_pos hin
    have hnumber : map.number (map.locate (map.word addr)) = map.word addr := number_locate _
    obtain ⟨start, hencode, hstart⟩ := h.exists_encode_eq_ok hcovers
    refine ⟨map.locate (map.word addr), ?_, hcovers.1, hcovers.2, hnumber, ?_⟩
    · rw [h.decode_eq, if_pos hin]
    · have hfirst := h.toNat_wordStart addr
      rw [hencode, Except.ok.injEq, ← UInt64.toNat_inj, hstart, hfirst, position, hnumber,
        h.toNat_wordStride, ← hfirst]
      exact Nat.mod_eq_of_lt (UInt64.toNat_lt _)

theorem exists_encodes (h : map.Numbered) {l : Location} (hl : map.Covers l) :
    ∃ addr, map.Encodes l addr := by
  obtain ⟨addr, hencode, haddr⟩ := h.exists_encode_eq_ok hl
  refine ⟨addr, hencode, haddr, ?_, ?_⟩
  · rw [haddr]
    exact ⟨fun heq => heq ▸ Nat.mod_lt _ (by decide), Nat.mod_eq_of_lt⟩
  · rw [h.decode_eq_ok_iff hl]
    exact h.word_eq_number_iff haddr

theorem bank_ne (h : map.Numbered) {addr addr' : UInt64} {l l' : Location}
    (hl : map.decode addr = .ok l) (hl' : map.decode addr' = .ok l')
    (hlt : map.word addr < map.word addr')
    (hnear : map.word addr' < map.word addr + map.bankCount) : l.bank ≠ l'.bank := by
  rw [h.decode_eq] at hl hl'
  split at hl <;> cases hl
  split at hl' <;> cases hl'
  intro hsame
  have hdvd : map.bankCount ∣ map.word addr' - map.word addr :=
    Nat.dvd_of_mod_eq_zero (Nat.sub_mod_eq_zero_of_mod_eq hsame.symm)
  have hle := Nat.le_of_dvd (by omega) hdvd
  omega

end Numbered

/-! ## Memories -/

/-- Every entry of a memory whose bits can be counted has its position as address. -/
theorem position_lt_of_fits {config : Config} {g : Geometry} {wordWidth : Nat}
    (hvalid : config.validate wordWidth = .ok g)
    (hfits : config.totalEntries * wordWidth < Size.limit) :
    ∃ own, ofGeometry g = .ok own ∧ ∀ l, g.contains l →
      own.position l < 2 ^ 64 ∧ ∃ addr, own.encode l = .ok addr ∧ own.decode addr = .ok l := by
  have hg := Geometry.consistent_of_fits hvalid hfits
  obtain ⟨own, hown, hbanks, hentries, hwithin⟩ := ofGeometry_eq_ok hg
  have hnumbered := hwithin.numbered hg
  obtain ⟨-, -, -, hpos, hsplit, -, rfl⟩ := Config.validate_eq_ok_iff.mp hvalid
  have hstride : own.wordStride.toNat ≤ wordWidth := by
    rw [hnumbered.toNat_wordStride]
    exact two_pow_offsetBits_le hown hpos
  have hwords : own.words = config.totalEntries := by
    rw [words, hentries, hbanks]
    exact Nat.div_mul_cancel hsplit
  refine ⟨own, hown, fun l hl => ?_⟩
  obtain ⟨hindex, hbank⟩ := Geometry.contains_iff.mp hl
  have hcovers : own.Covers l := ⟨hentries ▸ hindex, hbanks ▸ hbank⟩
  have hposition : own.position l < 2 ^ 64 := by
    calc
      own.number l * own.wordStride.toNat
          ≤ own.words * wordWidth := Nat.mul_le_mul (number_lt hcovers).le hstride
      _ < 2 ^ 64 := by rw [hwords]; exact hfits
  obtain ⟨addr, hencodes⟩ := hnumbered.exists_encodes hcovers
  exact ⟨hposition, addr, hencodes.encode, hencodes.decode.mpr hposition⟩

/-- Decoding and encoding are inverse to each other on the words of a map and the entries whose
positions are addresses, which are all entries of a memory whose bits can be counted.  Neighbouring
words go round the banks. -/
theorem decode_encode_inverse {wordWidth bankCount entries : Nat}
    (hwidth : wordWidth < Size.limit) (hbanks : 0 < bankCount)
    (hfits : entries * bankCount < Size.limit) :
    (∃ map, ofParts wordWidth bankCount entries = .ok map ∧
      map.bankCount = bankCount ∧ map.entriesPerBank = entries ∧
      IsLeast {bytes | (∃ k, bytes = 2 ^ k) ∧ max 1 (wordWidth ⌈/⌉ 8) ≤ bytes}
        map.wordStride.toNat ∧
      (∀ addr, map.Decodes addr) ∧
      (∀ l : Location, l.index < entries → l.bank < bankCount → ∃ addr, map.Encodes l addr) ∧
      ∀ addr addr' l l', map.decode addr = .ok l → map.decode addr' = .ok l' →
        (addr / map.wordStride).toNat < (addr' / map.wordStride).toNat →
        (addr' / map.wordStride).toNat < (addr / map.wordStride).toNat + bankCount →
        l.bank ≠ l'.bank) ∧
    ∀ (config : Config) g, config.validate wordWidth = .ok g →
      config.totalEntries * wordWidth < Size.limit →
      ∃ own, ofGeometry g = .ok own ∧ ∀ l, g.contains l →
        own.position l < 2 ^ 64 ∧
          ∃ addr, own.encode l = .ok addr ∧ own.decode addr = .ok l := by
  have hbuilt := ofParts_eq_ok wordWidth hbanks entries
  have h : Numbered ⟨Size.log2Ceil ((wordWidth + 7) / 8), bankCount, entries⟩ :=
    ⟨hbanks, offsetBits_lt_of_ofParts hbuilt hwidth, hfits⟩
  refine ⟨⟨_, hbuilt, rfl, rfl, ?_, h.decodes, ?_, ?_⟩, ?_⟩
  · rw [h.toNat_wordStride]
    exact isLeast_two_pow_offsetBits hbuilt
  · exact fun l hindex hbank => h.exists_encodes ⟨hindex, hbank⟩
  · intro addr addr' l l' hl hl'
    rw [h.toNat_div_wordStride, h.toNat_div_wordStride]
    exact h.bank_ne hl hl'
  · exact fun config g hvalid hfits => position_lt_of_fits hvalid hfits

/-- So many words of twelve bits that the last third of them has no addresses. -/
theorem decode_encode_inverse_truncated :
    12 < Size.limit ∧ 0 < 3 ∧ 2 ^ 62 * 3 < Size.limit ∧
      ∃ map addr, ofParts 12 3 (2 ^ 62) = .ok map ∧
        map.encode ⟨2 ^ 62 - 1, 2⟩ = .ok addr ∧ map.decode addr ≠ .ok ⟨2 ^ 62 - 1, 2⟩ := by
  have hfits : 2 ^ 62 * 3 < Size.limit := by decide
  obtain ⟨⟨map, hbuilt, -, -, -, -, hencodes, -⟩, -⟩ :=
    decode_encode_inverse (by decide : 12 < Size.limit) (by decide : 0 < 3) hfits
  obtain ⟨addr, hlast⟩ := hencodes ⟨2 ^ 62 - 1, 2⟩ (by decide) (by decide)
  refine ⟨by decide, by decide, hfits, map, addr, hbuilt, hlast.encode, fun hdecode => ?_⟩
  have hposition := hlast.decode.mp hdecode
  cases hbuilt
  revert hposition
  decide

end BankedStore.AddressMap
