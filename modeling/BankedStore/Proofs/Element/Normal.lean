import Mathlib.Data.Set.Function
import BankedStore.Proofs.Element.RoundTrip

/-!
# Values that survive packing

Packing drops the high bits of tags and nothing else, so a value comes back with
its tags reduced to twelve bits.  On values without such high bits packing is a
bijection onto the well-formed vectors of the type's width.  Each type is treated
for itself; a composite one is unpacked at the places where its parts were joined.
-/

namespace BankedStore.Value

/-- The value with every tag in it reduced to its low twelve bits. -/
def normalize : (t : ElementType) → Value t → Value t
  | .bool, v => v
  | .uint _, v => v
  | .sint _, v => v
  | .float32, v => v
  | .float64, v => v
  | .rgb, v => v
  | .tag12, (v : Tag12) => (⟨v.raw % 4096⟩ : Tag12)
  | .array e _, (v : Vector (Value e) _) => v.map (normalize e)
  | .pair a b, (x, y) => (normalize a x, normalize b y)
  | .triple a b c, (x, y, z) => (normalize a x, normalize b y, normalize c z)

def Normal : (t : ElementType) → Value t → Prop
  | .bool, _ => True
  | .uint _, _ => True
  | .sint _, _ => True
  | .float32, _ => True
  | .float64, _ => True
  | .rgb, _ => True
  | .tag12, (v : Tag12) => v.raw < 4096
  | .array e _, (v : Vector (Value e) _) => ∀ x ∈ v, Normal e x
  | .pair a b, (x, y) => Normal a x ∧ Normal b y
  | .triple a b c, (x, y, z) => Normal a x ∧ Normal b y ∧ Normal c z

instance decidableNormal : (t : ElementType) → (v : Value t) → Decidable (Normal t v)
  | .bool, _ => isTrue trivial
  | .uint _, _ => isTrue trivial
  | .sint _, _ => isTrue trivial
  | .float32, _ => isTrue trivial
  | .float64, _ => isTrue trivial
  | .rgb, _ => isTrue trivial
  | .tag12, (v : Tag12) => inferInstanceAs (Decidable (v.raw < 4096))
  | .array e _, (v : Vector (Value e) _) =>
      have := decidableNormal e
      decidable_of_iff (∀ x ∈ v.toList, Normal e x) (by simp [Normal])
  | .pair a b, (x, y) =>
      have := decidableNormal a x
      have := decidableNormal b y
      inferInstanceAs (Decidable (_ ∧ _))
  | .triple a b c, (x, y, z) =>
      have := decidableNormal a x
      have := decidableNormal b y
      have := decidableNormal c z
      inferInstanceAs (Decidable (_ ∧ _ ∧ _))

theorem normal_normalize : (t : ElementType) → (v : Value t) → Normal t (normalize t v)
  | .bool, _ => trivial
  | .uint _, _ => trivial
  | .sint _, _ => trivial
  | .float32, _ => trivial
  | .float64, _ => trivial
  | .rgb, _ => trivial
  | .tag12, (v : Tag12) => by
      change v.raw % 4096 < 4096
      rw [UInt16.lt_iff_toNat_lt, UInt16.toNat_mod]
      exact Nat.mod_lt _ (by decide)
  | .array e n, (v : Vector (Value e) n) => by
      intro x hx
      obtain ⟨y, -, rfl⟩ := Vector.mem_map.mp hx
      exact normal_normalize e y
  | .pair a b, (x, y) => ⟨normal_normalize a x, normal_normalize b y⟩
  | .triple a b c, (x, y, z) =>
      ⟨normal_normalize a x, normal_normalize b y, normal_normalize c z⟩

theorem normalize_of_normal : (t : ElementType) → {v : Value t} → Normal t v → normalize t v = v
  | .bool, _, _ => rfl
  | .uint _, _, _ => rfl
  | .sint _, _, _ => rfl
  | .float32, _, _ => rfl
  | .float64, _, _ => rfl
  | .rgb, _, _ => rfl
  | .tag12, (v : Tag12), h => by
      have h : v.raw < 4096 := h
      rw [UInt16.lt_iff_toNat_lt] at h
      change (⟨v.raw % 4096⟩ : Tag12) = v
      congr 1
      rw [← UInt16.toNat_inj, UInt16.toNat_mod]
      exact Nat.mod_eq_of_lt h
  | .array e n, (v : Vector (Value e) n), h => by
      apply Vector.ext
      intro i hi
      change (v.map (normalize e))[i] = v[i]
      rw [Vector.getElem_map]
      exact normalize_of_normal e (h _ (Vector.getElem_mem hi))
  | .pair a b, (_, _), ⟨hx, hy⟩ =>
      congrArg₂ Prod.mk (normalize_of_normal a hx) (normalize_of_normal b hy)
  | .triple a b c, (_, _, _), ⟨hx, hy, hz⟩ =>
      congrArg₂ Prod.mk (normalize_of_normal a hx)
        (congrArg₂ Prod.mk (normalize_of_normal b hy) (normalize_of_normal c hz))

/-! ## Reading back what was packed -/

def Normalizes (t : ElementType) : Prop :=
  ∀ v : Value t, t.width < Size.limit → unpack t (pack t v) = .ok (normalize t v)

private theorem unpackInt_ofBitVec128 {width : Nat} (v : BitVec width) (hsmall : width ≤ 128) :
    unpackInt width (Bits.ofBitVec128 width (v.setWidth 128)) = .ok v := by
  have hlt : v.toNat < 2 ^ 128 :=
    Nat.lt_of_lt_of_le v.isLt (Nat.pow_le_pow_right (by decide) hsmall)
  have hvalue : (Bits.ofBitVec128 width (v.setWidth 128)).toBitVec128.setWidth width = v := by
    apply BitVec.eq_of_toNat_eq
    rw [BitVec.toNat_setWidth, Bits.toNat_toBitVec128, Bits.toNat_ofBitVec128,
      BitVec.toNat_setWidth, Nat.mod_eq_of_lt hlt, Nat.mod_eq_of_lt v.isLt, Nat.mod_eq_of_lt hlt,
      Nat.mod_eq_of_lt v.isLt]
  rw [unpackInt, expectWidth_eq_ok (show (Bits.ofBitVec128 width _).width = width from rfl)]
  exact congrArg Except.ok hvalue

private theorem unpackInt_ofUInt64 (c : UInt8) :
    unpackInt 8 (Bits.ofUInt64 8 c.toUInt64) = .ok c.toBitVec := by
  have hlt := c.toNat_lt
  have hvalue : (Bits.ofUInt64 8 c.toUInt64).toBitVec128.setWidth 8 = c.toBitVec := by
    apply BitVec.eq_of_toNat_eq
    rw [BitVec.toNat_setWidth, Bits.toNat_toBitVec128, Bits.toNat_ofUInt64,
      UInt8.toNat_toUInt64, UInt8.toNat_toBitVec]
    omega
  rw [unpackInt, expectWidth_eq_ok (show (Bits.ofUInt64 8 _).width = 8 from rfl)]
  exact congrArg Except.ok hvalue

private theorem unpackByte_of_range {b : Bits} {low : Nat} {c : UInt8}
    (h : b.range low 8 = .ok (.ofUInt64 8 c.toUInt64)) : unpackByte b low = .ok c := by
  rw [unpackByte, h]
  change (do return UInt8.ofBitVec (← unpackInt 8 (Bits.ofUInt64 8 c.toUInt64))) = _
  rw [unpackInt_ofUInt64]
  rfl

private theorem normalizes_bool : Normalizes .bool := by
  intro v _
  cases v <;> rfl

private theorem normalizes_rgb : Normalizes .rgb := by
  intro (⟨r, g, c⟩ : Rgb) hfits
  have hwf : ∀ p ∈ [r, g, c].map fun x => Bits.ofUInt64 8 x.toUInt64, p.WellFormed := by
    simp [Bits.ofUInt64, Bits.wellFormed_ofWords]
  have hr : unpackByte (pack .rgb (⟨r, g, c⟩ : Rgb)) 0 = .ok r :=
    unpackByte_of_range (Bits.range_concat [] rfl rfl hwf hfits)
  have hg : unpackByte (pack .rgb (⟨r, g, c⟩ : Rgb)) 8 = .ok g :=
    unpackByte_of_range (Bits.range_concat [.ofUInt64 8 r.toUInt64] rfl rfl hwf hfits)
  have hc : unpackByte (pack .rgb (⟨r, g, c⟩ : Rgb)) 16 = .ok c :=
    unpackByte_of_range
      (Bits.range_concat [.ofUInt64 8 r.toUInt64, .ofUInt64 8 g.toUInt64] rfl rfl hwf hfits)
  rw [unpack, hr, hg, hc]
  rfl

private theorem normalizes_tag12 : Normalizes .tag12 := by
  intro (⟨raw⟩ : Tag12) _
  have hvalue : (Bits.ofUInt64 12 (raw &&& 0xFFF).toUInt64).toUInt64.toUInt16 &&& 0xFFF =
      raw % 4096 := by
    rw [← UInt16.toNat_inj, UInt16.toNat_and, UInt64.toNat_toUInt16, Bits.toNat_toUInt64,
      Bits.toNat_ofUInt64, UInt16.toNat_toUInt64, UInt16.toNat_and, UInt16.toNat_mod]
    change (raw.toNat &&& (2 ^ 12 - 1)) % 2 ^ 12 % 2 ^ 64 % 2 ^ 16 &&& (2 ^ 12 - 1) =
      raw.toNat % 2 ^ 12
    rw [Nat.and_two_pow_sub_one_eq_mod, Nat.and_two_pow_sub_one_eq_mod]
    omega
  exact congrArg (fun x => Except.ok (⟨x⟩ : Tag12)) hvalue

private theorem ofFnM_eq_ok {ε α : Type} {n : Nat} {f : Fin n → Except ε α} {v : Vector α n}
    (h : ∀ (i : Nat) (hi : i < n), f ⟨i, hi⟩ = .ok v[i]) : Vector.ofFnM f = .ok v := by
  obtain ⟨u, hu, hparts⟩ := exists_ofFnM_eq_ok fun i => ⟨v[i], h i i.isLt, rfl⟩
  rw [hu]
  exact congrArg Except.ok (Vector.ext fun i hi => (hparts ⟨i, hi⟩).symm)

private theorem mem_map_pack {e : ElementType} {values : List (Value e)} :
    ∀ part ∈ values.map (pack e), part.width = e.width ∧ part.WellFormed := by
  intro part hpart
  obtain ⟨value, -, rfl⟩ := List.mem_map.mp hpart
  exact ⟨width_pack e value, wellFormed_pack e value⟩

private theorem range_pack_array {e : ElementType} {n : Nat} (v : Vector (Value e) n)
    (hfits : e.width * n < Size.limit) (i : Fin n) :
    (pack (.array e n) v).range (i * e.width) e.width = .ok (pack e v[i]) := by
  have hsplit : v.toList.map (pack e) =
      (v.toList.take i).map (pack e) ++ (v[i] :: v.toList.drop (i + 1)).map (pack e) := by
    have hi : (i : Nat) < v.toList.length := by simp
    have hget : v.toList[(i : Nat)] = v[i] := by simp
    rw [← List.map_append, ← hget, List.getElem_cons_drop, List.take_append_drop]
  have hbelow : (Bits.concat ((v.toList.take i).map (pack e))).width = i * e.width := by
    rw [Bits.width_concat_of_forall fun p hp => (mem_map_pack p hp).1]
    simp [i.isLt.le]
  have hwidth : (pack (.array e n) v).width = e.width * n := width_pack (.array e n) v
  change (Bits.concat (v.toList.map (pack e))).width = _ at hwidth
  change (Bits.concat (v.toList.map (pack e))).range _ _ = _
  rw [hsplit] at hwidth ⊢
  refine Bits.range_concat _ hbelow (width_pack e _) ?_ (hwidth ▸ hfits)
  rw [← List.map_cons, ← List.map_append]
  exact fun p hp => (mem_map_pack p hp).2

private theorem normalizes_array {e : ElementType} (he : Normalizes e) (n : Nat) :
    Normalizes (.array e n) := by
  intro (v : Vector (Value e) n) hfits
  have hfits : e.width * n < Size.limit := hfits
  have hpart := range_pack_array v hfits
  have hwidth : (pack (.array e n) v).width = e.width * n := width_pack (.array e n) v
  generalize pack (.array e n) v = word at hpart hwidth
  rw [unpack, expectWidth_eq_ok hwidth]
  change Vector.ofFnM _ = Except.ok (v.map (normalize e))
  apply ofFnM_eq_ok
  intro i hi
  have hwide : e.width < Size.limit :=
    Nat.lt_of_le_of_lt (Nat.le_mul_of_pos_right _ (Nat.zero_lt_of_lt hi)) hfits
  rw [hpart ⟨i, hi⟩]
  exact (he v[i] hwide).trans (by simp)

private theorem normalizes_pair {a b : ElementType} (ha : Normalizes a) (hb : Normalizes b) :
    Normalizes (.pair a b) := by
  intro (⟨x, y⟩ : Value a × Value b) hfits
  have hfits : a.width + b.width < Size.limit := hfits
  have hwidth : (pack (.pair a b) (x, y)).width = a.width + b.width := width_pack (.pair a b) _
  have hlimit : (pack (.pair a b) (x, y)).width < Size.limit := hwidth ▸ hfits
  have hwf : ∀ p ∈ [pack a x, pack b y], p.WellFormed := by simp [wellFormed_pack]
  have hx : (pack (.pair a b) (x, y)).range 0 a.width = .ok (pack a x) :=
    Bits.range_concat [] rfl (width_pack a x) hwf hlimit
  have hy : (pack (.pair a b) (x, y)).range a.width b.width = .ok (pack b y) :=
    Bits.range_concat [pack a x] (width_pack a x) (width_pack b y) hwf hlimit
  rw [unpack, expectWidth_eq_ok hwidth, hx, hy]
  change (do let x ← unpack a (pack a x); return (x, ← unpack b (pack b y))) = _
  rw [ha x (by omega), hb y (by omega)]
  rfl

private theorem normalizes_triple {a b c : ElementType} (ha : Normalizes a) (hb : Normalizes b)
    (hc : Normalizes c) : Normalizes (.triple a b c) := by
  intro (⟨x, y, z⟩ : Value a × Value b × Value c) hfits
  have hfits : a.width + b.width + c.width < Size.limit := hfits
  have hwidth : (pack (.triple a b c) (x, y, z)).width = a.width + b.width + c.width :=
    width_pack (.triple a b c) _
  have hlimit : (pack (.triple a b c) (x, y, z)).width < Size.limit := hwidth ▸ hfits
  have hwf : ∀ p ∈ [pack a x, pack b y, pack c z], p.WellFormed := by simp [wellFormed_pack]
  have hbelow : (Bits.concat [pack a x, pack b y]).width = a.width + b.width :=
    width_pack (.pair a b) (x, y)
  have hx : (pack (.triple a b c) (x, y, z)).range 0 a.width = .ok (pack a x) :=
    Bits.range_concat [] rfl (width_pack a x) hwf hlimit
  have hy : (pack (.triple a b c) (x, y, z)).range a.width b.width = .ok (pack b y) :=
    Bits.range_concat [pack a x] (width_pack a x) (width_pack b y) hwf hlimit
  have hz : (pack (.triple a b c) (x, y, z)).range (a.width + b.width) c.width =
      .ok (pack c z) :=
    Bits.range_concat [pack a x, pack b y] hbelow (width_pack c z) hwf hlimit
  rw [unpack, expectWidth_eq_ok hwidth, hx, hy, hz]
  change (do
    let x ← unpack a (pack a x)
    let y ← unpack b (pack b y)
    return (x, y, ← unpack c (pack c z))) = _
  rw [ha x (by omega), hb y (by omega), hc z (by omega)]
  rfl

theorem normalizes (t : ElementType) : Normalizes t := by
  induction t with
  | bool => exact normalizes_bool
  | uint w | sint w =>
      exact fun v _ => unpackInt_ofBitVec128 v (by cases w <;> decide)
  | float32 => exact fun v _ => unpackInt_ofBitVec128 v (by decide)
  | float64 => exact fun v _ => unpackInt_ofBitVec128 v (by decide)
  | rgb => exact normalizes_rgb
  | tag12 => exact normalizes_tag12
  | array e n ih => exact normalizes_array ih n
  | pair a b iha ihb => exact normalizes_pair iha ihb
  | triple a b c iha ihb ihc => exact normalizes_triple iha ihb ihc

theorem pack_normalize {t : ElementType} (h : t.width < Size.limit) (v : Value t) :
    pack t (normalize t v) = pack t v := by
  obtain ⟨read, hread, hpack⟩ := readsBack t h (width_pack t v) (wellFormed_pack t v)
  rw [normalizes t v h] at hread
  cases hread
  exact hpack

theorem pack_injOn {t : ElementType} (h : t.width < Size.limit) :
    Set.InjOn (pack t) {v | Normal t v} := by
  intro v hv w hw hpack
  have hread := normalizes t w h
  rw [← hpack, normalizes t v h, normalize_of_normal t hv, normalize_of_normal t hw] at hread
  cases hread
  rfl

theorem pack_surjOn {t : ElementType} (h : t.width < Size.limit) :
    Set.SurjOn (pack t) {v | Normal t v} {b | b.width = t.width ∧ b.WellFormed} := by
  rintro b ⟨hwidth, hwf⟩
  obtain ⟨v, -, hpack⟩ := readsBack t h hwidth hwf
  exact ⟨normalize t v, normal_normalize t v, (pack_normalize h v).trans hpack⟩

/-- A packed value has exactly the bits of its type.  Every well-formed vector of that width is
read, and as a value that packs to it; reading a packed value gives the value with its tags
reduced.  So packing is a bijection from the values without high bits in their tags. -/
theorem pack_bijOn_normal {t : ElementType} (h : t.width < Size.limit) :
    (∀ v, (pack t v).width = t.width ∧ (pack t v).WellFormed) ∧
      (∀ b : Bits, b.width = t.width → b.WellFormed → ∃ v, unpack t b = .ok v ∧ pack t v = b) ∧
      (∀ v, unpack t (pack t v) = .ok (normalize t v)) ∧
      (∀ v, Normal t v → unpack t (pack t v) = .ok v) ∧
      Set.BijOn (pack t) {v | Normal t v} {b | b.width = t.width ∧ b.WellFormed} := by
  have hmaps : Set.MapsTo (pack t) {v | Normal t v} {b | b.width = t.width ∧ b.WellFormed} :=
    fun v _ => ⟨width_pack t v, wellFormed_pack t v⟩
  refine ⟨fun v => ⟨width_pack t v, wellFormed_pack t v⟩,
    fun b hwidth hwf => readsBack t h hwidth hwf, fun v => normalizes t v h,
    fun v hv => ?_, hmaps, pack_injOn h, pack_surjOn h⟩
  rw [normalizes t v h, normalize_of_normal t hv]

private def mixed : ElementType :=
  .triple .bool (.pair (.array .tag12 7) (.array .rgb 0)) (.sint .w128)

private def tagged (tag : Tag12) : Value mixed :=
  (true, (#v[tag, ⟨1⟩, ⟨2⟩, ⟨3⟩, ⟨4⟩, ⟨5⟩, ⟨6⟩], #v[]), (-1 : BitVec 128))

theorem pack_bijOn_normal_mixed :
    mixed.width < Size.limit ∧ ¬ Normal mixed (tagged ⟨0xFABC⟩) ∧
      unpack mixed (pack mixed (tagged ⟨0xFABC⟩)) = .ok (tagged ⟨0xABC⟩) ∧
      Normal mixed (tagged ⟨0xABC⟩) ∧
      unpack mixed (pack mixed (tagged ⟨0xABC⟩)) = .ok (tagged ⟨0xABC⟩) ∧
      ∃ v, unpack mixed (.ones 213) = .ok v ∧ pack mixed v = .ones 213 := by
  obtain ⟨-, hread, hpacked, hnormal, -⟩ := pack_bijOn_normal (t := mixed) (by decide)
  have hlow : normalize mixed (tagged ⟨0xFABC⟩) = tagged ⟨0xABC⟩ := by decide +kernel
  exact ⟨by decide, by decide, hlow ▸ hpacked _, by decide, hnormal _ (by decide),
    hread _ rfl (Bits.wellFormed_ofWords ..)⟩

end BankedStore.Value
