import BankedStore.Proofs.Element.Components
import BankedStore.Proofs.Memory.Canonical

/-!
# Writes element by element

In a memory with one slice for each cell of its values, a slice is the packed form
of a cell.  There a mask chooses cells: a write replaces the chosen ones by those
of the written value, as packing leaves them, and keeps the others.
-/

namespace BankedStore

theorem Geometry.byteEnables_of_validate {c : Config} {wordWidth : Nat} {g : Geometry}
    (h : c.validate wordWidth = .ok g) : g.byteEnables = c.byteEnables := by
  obtain ⟨-, -, -, -, -, -, rfl⟩ := Config.validate_eq_ok_iff.mp h
  rfl

namespace Memory

variable {t e : ElementType} {n : Nat} {m : Memory t} {l : Location}

def CellWritten (mask : SliceMask) (i : Nat) (written old new : Value e) : Prop :=
  if mask.allows i then Value.unpack e (Value.pack e written) = .ok new else new = old

/-- An entry is read, written under a mask and read again: the mask has chosen among its cells. -/
def WritesCells (m : Memory t) (cells : t.Cells e n) : Prop :=
  ∀ (l : Location) (value : Value t) (mask : SliceMask), m.geometry.contains l → mask.length = n →
    ∃ old next new, m.read l = .ok old ∧ m.write l value mask true = .ok next ∧
      next.read l = .ok new ∧
      ∀ i : Fin n, CellWritten mask i (cells.cell value i) (cells.cell old i) (cells.cell new i)

section OneSliceACell

variable (h : m.Sound) (cells : t.Cells e n) (hslices : m.geometry.byteEnables = n)
include h cells hslices

theorem sliceWidth_of_cells : m.geometry.sliceWidth = e.width := by
  have hpos := h.consistent.enables_pos
  have hwidth := h.wordWidth
  rw [cells.width, ← hslices] at hwidth
  rw [Geometry.sliceWidth, hwidth, Nat.mul_div_cancel _ hpos]

theorem unpack_sliceAt (hl : m.geometry.contains l) {value : Value t}
    (hread : m.read l = .ok value) (i : Fin n) :
    Value.unpack e (m.sliceAt l i) = .ok (cells.cell value i) := by
  rw [read, h.readBits_eq_ok hl] at hread
  obtain ⟨before, after, hsplit, hreach⟩ := cells.split value i
  obtain ⟨piece, hpiece, hcell⟩ := Value.readInPlace hread before _ after hsplit
  have hrange := h.range_wordAt hl (i.isLt.trans_eq hslices.symm)
  rw [sliceWidth_of_cells h cells hslices] at hrange
  dsimp only at hpiece
  rw [hreach, hrange] at hpiece
  cases hpiece
  exact hcell

theorem field_pack (value : Value t) (i : Fin n) :
    (Value.pack t value).field (i * m.geometry.sliceWidth) m.geometry.sliceWidth =
      Value.pack e (cells.cell value i) := by
  obtain ⟨before, after, hsplit, hreach⟩ := cells.split value i
  have hrange := Value.inPlace h.width_lt value before _ after hsplit
  have hwidth := Value.width_pack t value
  have hinside := h.slice_le (i.isLt.trans_eq hslices.symm)
  dsimp only at hrange
  rw [hreach, ← sliceWidth_of_cells h cells hslices,
    Bits.range_eq_ok _ (hwidth ▸ hinside) (hwidth ▸ h.width_lt)] at hrange
  exact Except.ok.inj hrange

theorem writesCells : m.WritesCells cells := by
  intro l value mask hl hmask
  obtain ⟨old, hold, -⟩ := h.exists_read_eq_ok hl
  obtain ⟨next, hnext, hwritten⟩ := exists_writeBits_eq_ok h mask hl
    ((Value.width_pack t value).trans h.wordWidth.symm) (hmask.trans hslices.symm)
  have hgeometry := hwritten.geometry
  have hinside : next.geometry.contains l := hgeometry ▸ hl
  obtain ⟨new, hnew, -⟩ := hwritten.sound.exists_read_eq_ok hinside
  refine ⟨old, next, new, hold, hnext, hnew, fun i => ?_⟩
  have hcell := unpack_sliceAt hwritten.sound cells (hgeometry ▸ hslices) hinside hnew i
  rw [hwritten.slices l i hl (i.isLt.trans_eq hslices.symm)] at hcell
  -- The slice of a chosen cell is a piece of the packed value, any other is the old slice.
  unfold CellWritten
  by_cases hchosen : mask.allows i
  · rw [if_pos ⟨rfl, hchosen⟩, field_pack h cells hslices] at hcell
    rwa [if_pos hchosen]
  · rw [if_neg fun hc => hchosen hc.2, unpack_sliceAt h cells hslices hl hold] at hcell
    rw [if_neg hchosen]
    exact (Except.ok.inj hcell).symm

end OneSliceACell

theorem Reachable.writesCells (hm : m.Reachable) (cells : t.Cells e n)
    (hbuilt : m.config.byteEnables = n) : m.WritesCells cells :=
  Memory.writesCells hm.sound cells
    ((Geometry.byteEnables_of_validate hm.sound.valid).trans hbuilt)

/-- The components of a packed value lie end to end, and an integer counts modulo the numbers of
its width.  So memories of arrays with one slice an element, and of colours with one slice a
channel, are written element by element and channel by channel. -/
theorem components_written_in_place :
    (∀ (t : ElementType) (v : Value t), t.width < Size.limit → Value.InPlace t v) ∧
      (∀ (t : ElementType) (v : Value t) (number : Int), Value.integer? t v = some number →
        ((Value.pack t v).toNat : Int) = number % 2 ^ t.width) ∧
      (∀ (e : ElementType) (n : Nat) (m : Memory (.array e n)), m.Reachable →
        m.config.byteEnables = n → m.WritesCells (.array e n)) ∧
      ∀ m : Memory .rgb, m.Reachable → m.config.byteEnables = 3 → m.WritesCells .rgb :=
  ⟨fun _ v h => Value.inPlace h v, fun t v _ h => Value.toNat_pack_of_integer t v h,
    fun e n _ hm hbuilt => hm.writesCells (.array e n) hbuilt,
    fun _ hm hbuilt => hm.writesCells .rgb hbuilt⟩

theorem components_written_in_place_tags :
    ∃ m : Memory (.array .tag12 3), Memory.new (.array .tag12 3) ⟨4, 2, 3⟩ = .ok m ∧
      ∃ (old new : Vector Tag12 3) (next : Memory (.array .tag12 3)), m.read ⟨1, 1⟩ = .ok old ∧
        m.write ⟨1, 1⟩ (#v[⟨0xFABC⟩, ⟨1⟩, ⟨2⟩] : Vector Tag12 3) (.ofUInt64 3 5) true = .ok next ∧
        next.read ⟨1, 1⟩ = .ok new ∧ new = #v[⟨0xABC⟩, old[1], ⟨2⟩] := by
  have hvalid : (⟨4, 2, 3⟩ : Config).validate (ElementType.array .tag12 3).width =
      .ok ⟨2, 2, 3, 36⟩ := rfl
  obtain ⟨m, hnew, hm, hgeometry⟩ := exists_fresh hvalid (by decide)
  have hbuilt : m.config.byteEnables = 3 := by
    rw [← Geometry.byteEnables_of_validate hm.sound.valid, hgeometry]
  obtain ⟨-, -, harrays, -⟩ := components_written_in_place
  obtain ⟨(old : Vector Tag12 3), next, (new : Vector Tag12 3), hold, hnext, hread, hcells⟩ :=
    harrays .tag12 3 m hm hbuilt ⟨1, 1⟩
      (#v[⟨0xFABC⟩, ⟨1⟩, ⟨2⟩] : Vector Tag12 3) (.ofUInt64 3 5) (by rw [hgeometry]; rfl) rfl
  refine ⟨m, hnew, old, new, next, hold, hnext, hread, ?_⟩
  have hfirst : (⟨0xABC⟩ : Tag12) = new[0] := Except.ok.inj (hcells 0)
  have hsecond : new[1] = old[1] := hcells 1
  have hthird : (⟨2⟩ : Tag12) = new[2] := Except.ok.inj (hcells 2)
  rw [hfirst, ← hsecond, hthird]
  refine Vector.ext fun i hi => ?_
  match i with
  | 0 | 1 | 2 => rfl

end Memory

end BankedStore
