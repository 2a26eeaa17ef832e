import BankedStore.Proofs.Element.Normal

/-!
# Components of values

Arrays, pairs, triples and colours have components.  Packing lays them end to end,
the first one lowest, so a component is the range of the packed value that begins
where the components before it end.  Reading takes each component from the range
in which packing puts it.
-/

namespace BankedStore

structure Component where
  type : ElementType
  value : Value type

namespace Component

def bits (c : Component) : Bits :=
  Value.pack c.type c.value

def reach (components : List Component) : Nat :=
  (components.map (·.type.width)).sum

@[simp] theorem width_bits (c : Component) : c.bits.width = c.type.width :=
  Value.width_pack c.type c.value

theorem wellFormed_of_mem_bits {components : List Component} :
    ∀ part ∈ components.map bits, part.WellFormed := by
  intro part hpart
  obtain ⟨c, -, rfl⟩ := List.mem_map.mp hpart
  exact Value.wellFormed_pack c.type c.value

theorem width_concat_bits (components : List Component) :
    (Bits.concat (components.map bits)).width = reach components := by
  rw [Bits.width_concat, List.map_map, reach]
  exact congrArg List.sum (List.map_congr_left fun c _ => c.width_bits)

end Component

namespace Value

def components : (t : ElementType) → Value t → List Component
  | .array e _, (v : Vector (Value e) _) => v.toList.map (Component.mk e)
  | .pair a b, (x, y) => [⟨a, x⟩, ⟨b, y⟩]
  | .triple a b c, (x, y, z) => [⟨a, x⟩, ⟨b, y⟩, ⟨c, z⟩]
  | .rgb, (v : Rgb) => [v.r, v.g, v.b].map fun c => ⟨.uint .w8, c.toBitVec⟩
  | _, _ => []

/-! ## Packing -/

theorem pack_byte (c : UInt8) :
    pack (.uint .w8) c.toBitVec = Bits.ofUInt64 8 c.toUInt64 := by
  refine Bits.toNat_injective rfl ?_
  change (Bits.ofBitVec128 8 (c.toBitVec.setWidth 128)).toNat = _
  have hlt := c.toNat_lt
  rw [Bits.toNat_ofBitVec128, Bits.toNat_ofUInt64, BitVec.toNat_setWidth, UInt8.toNat_toUInt64,
    UInt8.toNat_toBitVec, Nat.mod_eq_of_lt (by omega : c.toNat < 2 ^ 128)]

theorem pack_eq_concat : (t : ElementType) → (v : Value t) → components t v ≠ [] →
    pack t v = Bits.concat ((components t v).map Component.bits)
  | .array e n, (v : Vector (Value e) n), _ => by
      change Bits.concat (v.toList.map (pack e)) =
        Bits.concat ((v.toList.map (Component.mk e)).map Component.bits)
      rw [List.map_map]
      rfl
  | .pair _ _, (_, _), _ => rfl
  | .triple _ _ _, (_, _, _), _ => rfl
  | .rgb, (⟨r, g, b⟩ : Rgb), _ => by
      change Bits.concat [_, _, _] = Bits.concat [pack _ _, pack _ _, pack _ _]
      rw [pack_byte, pack_byte, pack_byte]
  | .bool, _, h | .uint _, _, h | .sint _, _, h | .float32, _, h | .float64, _, h
  | .tag12, _, h => absurd rfl h

def InPlace (t : ElementType) (v : Value t) : Prop :=
  ∀ before c after, components t v = before ++ c :: after →
    (pack t v).range (Component.reach before) c.type.width = .ok c.bits

theorem inPlace {t : ElementType} (h : t.width < Size.limit) (v : Value t) : InPlace t v := by
  intro before c after hsplit
  have hpack := pack_eq_concat t v (by simp [hsplit])
  rw [hsplit, List.map_append, List.map_cons] at hpack
  have hwf : ∀ part ∈ (before ++ c :: after).map Component.bits, part.WellFormed :=
    Component.wellFormed_of_mem_bits
  rw [List.map_append, List.map_cons] at hwf
  have hfits := (width_pack t v).trans_lt h
  rw [hpack] at hfits ⊢
  exact Bits.range_concat _ (Component.width_concat_bits before) c.width_bits hwf hfits

def integer? : (t : ElementType) → Value t → Option Int
  | .uint _, (v : BitVec _) => some v.toNat
  | .sint _, (v : BitVec _) => some v.toInt
  | _, _ => none

private theorem toNat_ofBitVec128_setWidth {w : Nat} (hsmall : w ≤ 128) (v : BitVec w) :
    (Bits.ofBitVec128 w (v.setWidth 128)).toNat = v.toNat := by
  have hlt : v.toNat < 2 ^ 128 :=
    Nat.lt_of_lt_of_le v.isLt (Nat.pow_le_pow_right (by decide) hsmall)
  rw [Bits.toNat_ofBitVec128, BitVec.toNat_setWidth, Nat.mod_eq_of_lt hlt,
    Nat.mod_eq_of_lt v.isLt]

private theorem toNat_eq_emod {w : Nat} (v : BitVec w) : (v.toNat : Int) = v.toNat % 2 ^ w := by
  have hlt : (v.toNat : Int) < 2 ^ w := by exact_mod_cast v.isLt
  exact (Int.emod_eq_of_lt (Int.natCast_nonneg _) hlt).symm

private theorem toNat_eq_toInt_emod {w : Nat} (v : BitVec w) :
    (v.toNat : Int) = v.toInt % 2 ^ w := by
  have hwrap : v.toInt % 2 ^ w = v.toNat % 2 ^ w := by
    rw [BitVec.toInt_eq_toNat_bmod]
    exact_mod_cast Int.bmod_emod
  rw [hwrap]
  exact toNat_eq_emod v

theorem toNat_pack_of_integer : (t : ElementType) → (v : Value t) → {n : Int} →
    integer? t v = some n → ((pack t v).toNat : Int) = n % 2 ^ t.width
  | .uint w, (v : BitVec w.bits), _, rfl => by
      have hpack : (pack (.uint w) v).toNat = v.toNat :=
        toNat_ofBitVec128_setWidth (by cases w <;> decide) v
      rw [hpack]
      exact toNat_eq_emod v
  | .sint w, (v : BitVec w.bits), _, rfl => by
      have hpack : (pack (.sint w) v).toNat = v.toNat :=
        toNat_ofBitVec128_setWidth (by cases w <;> decide) v
      rw [hpack]
      exact toNat_eq_toInt_emod v

/-! ## Reading -/

private theorem exists_of_bind_eq_ok {ε α β : Type} {x : Except ε α} {f : α → Except ε β} {b : β}
    (h : x >>= f = .ok b) : ∃ a, x = .ok a ∧ f a = .ok b := by
  cases x with
  | error e => cases h
  | ok a => exact ⟨a, rfl, h⟩

private theorem getElem_of_ofFnM {ε α : Type} {n : Nat} {f : Fin n → Except ε α} {v : Vector α n}
    (h : Vector.ofFnM f = .ok v) (i : Nat) (hi : i < n) : f ⟨i, hi⟩ = .ok v[i] := by
  induction n with
  | zero => exact absurd hi (Nat.not_lt_zero i)
  | succ n ih =>
      rw [Vector.ofFnM_succ] at h
      obtain ⟨front, hfront, h⟩ := exists_of_bind_eq_ok h
      obtain ⟨last, hlast, h⟩ := exists_of_bind_eq_ok h
      cases h
      rcases Nat.lt_succ_iff_lt_or_eq.mp hi with hlt | rfl
      · rw [Vector.getElem_push_lt hlt]
        exact ih hfront hlt
      · rw [Vector.getElem_push_eq]
        exact hlast

def ReadAt (b : Bits) (low : Nat) (c : Component) : Prop :=
  ∃ piece, b.range low c.type.width = .ok piece ∧ unpack c.type piece = .ok c.value

private theorem readAt_of_bind {b : Bits} {low : Nat} {c : Component}
    (h : (do unpack c.type (← b.range low c.type.width)) = .ok c.value) : ReadAt b low c :=
  exists_of_bind_eq_ok h

private theorem readAt_byte {b : Bits} {low : Nat} {c : UInt8} (h : unpackByte b low = .ok c) :
    ReadAt b low ⟨.uint .w8, c.toBitVec⟩ := by
  rw [unpackByte] at h
  obtain ⟨piece, hpiece, h⟩ := exists_of_bind_eq_ok h
  obtain ⟨value, hvalue, h⟩ := exists_of_bind_eq_ok h
  cases h
  exact ⟨piece, hpiece, hvalue⟩

def ReadInPlace (t : ElementType) (b : Bits) (v : Value t) : Prop :=
  ∀ before c after, components t v = before ++ c :: after → ReadAt b (Component.reach before) c

private theorem split_array {e : ElementType} {n : Nat} {v : Vector (Value e) n}
    {before after : List Component} {c : Component}
    (h : components (.array e n) v = before ++ c :: after) :
    ∃ i, ∃ hi : i < n, c = ⟨e, v[i]⟩ ∧ Component.reach before = i * e.width := by
  have h : v.toList.map (Component.mk e) = before ++ c :: after := h
  obtain ⟨front, rest, hfront, rfl, hrest⟩ := List.map_eq_append_iff.mp h
  obtain ⟨x, back, rfl, rfl, rfl⟩ := List.map_eq_cons_iff.mp hrest
  have hlength : front.length < v.toList.length := by simp [hfront]
  have hx : v.toList[front.length] = x := List.getElem_of_append hfront rfl
  rw [v.length_toList] at hlength
  refine ⟨front.length, hlength, ?_, ?_⟩
  · rw [← hx, Vector.getElem_toList]
  · simp [Component.reach, Function.comp_def, List.map_const']

private theorem readInPlace_array {e : ElementType} {n : Nat} {b : Bits} {v : Vector (Value e) n}
    (h : unpack (.array e n) b = .ok v) : ReadInPlace (.array e n) b v := by
  rw [unpack] at h
  obtain ⟨-, -, h⟩ := exists_of_bind_eq_ok h
  intro before c after hsplit
  obtain ⟨i, hi, rfl, hreach⟩ := split_array hsplit
  rw [hreach]
  exact readAt_of_bind (getElem_of_ofFnM h i hi)

private theorem readInPlace_pair {s t : ElementType} {b : Bits} {x : Value s} {y : Value t}
    (h : unpack (.pair s t) b = .ok (x, y)) : ReadInPlace (.pair s t) b (x, y) := by
  rw [unpack] at h
  obtain ⟨-, -, h⟩ := exists_of_bind_eq_ok h
  obtain ⟨low, hlow, h⟩ := exists_of_bind_eq_ok h
  obtain ⟨x', hx, h⟩ := exists_of_bind_eq_ok h
  obtain ⟨high, hhigh, h⟩ := exists_of_bind_eq_ok h
  obtain ⟨y', hy, h⟩ := exists_of_bind_eq_ok h
  cases h
  intro before c after hsplit
  obtain _ | ⟨_, _ | ⟨_, before⟩⟩ := before
  · cases hsplit
    exact ⟨low, hlow, hx⟩
  · cases hsplit
    exact ⟨high, hhigh, hy⟩
  · simp [components] at hsplit

private theorem readInPlace_triple {s t u : ElementType} {b : Bits} {x : Value s} {y : Value t}
    {z : Value u} (h : unpack (.triple s t u) b = .ok (x, y, z)) :
    ReadInPlace (.triple s t u) b (x, y, z) := by
  rw [unpack] at h
  obtain ⟨-, -, h⟩ := exists_of_bind_eq_ok h
  obtain ⟨low, hlow, h⟩ := exists_of_bind_eq_ok h
  obtain ⟨x', hx, h⟩ := exists_of_bind_eq_ok h
  obtain ⟨middle, hmiddle, h⟩ := exists_of_bind_eq_ok h
  obtain ⟨y', hy, h⟩ := exists_of_bind_eq_ok h
  obtain ⟨high, hhigh, h⟩ := exists_of_bind_eq_ok h
  obtain ⟨z', hz, h⟩ := exists_of_bind_eq_ok h
  cases h
  intro before c after hsplit
  obtain _ | ⟨_, _ | ⟨_, _ | ⟨_, before⟩⟩⟩ := before
  · cases hsplit
    exact ⟨low, hlow, hx⟩
  · cases hsplit
    exact ⟨middle, hmiddle, hy⟩
  · cases hsplit
    exact ⟨high, hhigh, hz⟩
  · simp [components] at hsplit

private theorem readInPlace_rgb {b : Bits} {v : Rgb} (h : unpack .rgb b = .ok v) :
    ReadInPlace .rgb b v := by
  rw [unpack] at h
  obtain ⟨red, hred, h⟩ := exists_of_bind_eq_ok h
  obtain ⟨green, hgreen, h⟩ := exists_of_bind_eq_ok h
  obtain ⟨blue, hblue, h⟩ := exists_of_bind_eq_ok h
  cases h
  intro before c after hsplit
  obtain _ | ⟨_, _ | ⟨_, _ | ⟨_, before⟩⟩⟩ := before
  · cases hsplit
    exact readAt_byte hred
  · cases hsplit
    exact readAt_byte hgreen
  · cases hsplit
    exact readAt_byte hblue
  · simp [components] at hsplit

theorem readInPlace {t : ElementType} {b : Bits} {v : Value t} (h : unpack t b = .ok v) :
    ReadInPlace t b v := by
  cases t with
  | array e n => exact readInPlace_array h
  | pair => exact readInPlace_pair h
  | triple => exact readInPlace_triple h
  | rgb => exact readInPlace_rgb h
  | bool | uint | sint | float32 | float64 | tag12 =>
      intro before c after hsplit
      simp [components] at hsplit

end Value

/-! ## Cells -/

structure ElementType.Cells (t e : ElementType) (n : Nat) where
  cell : Value t → Fin n → Value e
  width : t.width = e.width * n
  split : ∀ v (i : Fin n), ∃ before after,
    Value.components t v = before ++ ⟨e, cell v i⟩ :: after ∧
      Component.reach before = i * e.width

namespace ElementType.Cells

def array (e : ElementType) (n : Nat) : (ElementType.array e n).Cells e n where
  cell (v : Vector (Value e) n) (i : Fin n) := v.get i
  width := rfl
  split (v : Vector (Value e) n) i := by
    refine ⟨(v.toList.take i).map (Component.mk e), (v.toList.drop (i + 1)).map (Component.mk e),
      ?_, ?_⟩
    · have hi : i < v.toList.length := by simp
      have hcell : v.toList[i.val] = v.get i := Vector.getElem_toList hi
      have hsplit : v.toList.take i ++ v.get i :: v.toList.drop (i + 1) = v.toList := by
        rw [← hcell, List.getElem_cons_drop, List.take_append_drop]
      rw [← List.map_cons, ← List.map_append, hsplit]
      rfl
    · simp [Component.reach, Function.comp_def, List.map_const']

def rgb : ElementType.rgb.Cells (.uint .w8) 3 where
  cell (v : Rgb) i := #v[v.r.toBitVec, v.g.toBitVec, v.b.toBitVec][i]
  width := rfl
  split (v : Rgb) i := by
    match i with
    | 0 => exact ⟨[], _, rfl, rfl⟩
    | 1 => exact ⟨[_], _, rfl, rfl⟩
    | 2 => exact ⟨[_, _], _, rfl, rfl⟩

end ElementType.Cells

end BankedStore
