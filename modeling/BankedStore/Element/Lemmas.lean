import BankedStore.Bits.Lemmas
import BankedStore.Element.Packing

/-!
Packed values have exactly the stored width of their type and clear padding.
-/

namespace BankedStore.Value

theorem width_pack : (t : ElementType) → (v : Value t) → (pack t v).width = t.width
  | .bool, _ => rfl
  | .uint _, _ => rfl
  | .sint _, _ => rfl
  | .float32, _ => rfl
  | .float64, _ => rfl
  | .rgb, _ => rfl
  | .tag12, _ => rfl
  | .array e n, (v : Vector (Value e) n) => by
      have (parts : List (Value e)) :
          (Bits.concat (parts.map (pack e))).width = e.width * parts.length := by
        induction parts with
        | nil => rfl
        | cons part parts ih =>
          rw [List.map_cons, List.length_cons, Nat.mul_succ, ← ih, ← width_pack e part,
            Nat.add_comm]
          rfl
      exact (this v.toList).trans (congrArg (e.width * ·) v.length_toList)
  | .pair a b, (x, y) => by
      simp [pack, Bits.width_concat, width_pack a, width_pack b, ElementType.width]
  | .triple a b c, (x, y, z) => by
      simp [pack, Bits.width_concat, width_pack a, width_pack b, width_pack c, ElementType.width,
        Nat.add_assoc]

theorem wellFormed_pack : (t : ElementType) → (v : Value t) → (pack t v).WellFormed
  | .bool, _ => Bits.wellFormed_ofWords ..
  | .uint _, _ => Bits.wellFormed_ofWords ..
  | .sint _, _ => Bits.wellFormed_ofWords ..
  | .float32, _ => Bits.wellFormed_ofWords ..
  | .float64, _ => Bits.wellFormed_ofWords ..
  | .rgb, v => by
      apply Bits.wellFormed_concat
      simp [Bits.ofUInt64, Bits.wellFormed_ofWords]
  | .tag12, _ => Bits.wellFormed_ofWords ..
  | .array e n, v => by
      apply Bits.wellFormed_concat
      simp [wellFormed_pack e]
  | .pair a b, (x, y) => by
      apply Bits.wellFormed_concat
      simp [wellFormed_pack a, wellFormed_pack b]
  | .triple a b c, (x, y, z) => by
      apply Bits.wellFormed_concat
      simp [wellFormed_pack a, wellFormed_pack b, wellFormed_pack c]

end BankedStore.Value
