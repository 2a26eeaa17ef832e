import BankedStore.Script.Writer

/-!
# Text as bytes

The bytes of a text are those of its characters one after the other, and they give
the text back.  A line feed is one byte, and no other character has that byte among
its own, so the line feeds of a text can be counted in its bytes.
-/

namespace BankedStore

theorem utf8_eq_flatMap (s : String) : utf8 s = s.toList.flatMap String.utf8EncodeChar := by
  rw [utf8, String.toUTF8_eq_toByteArray, ← String.utf8Encode_toList, List.utf8Encode,
    List.toList_data_toByteArray]

theorem fromUTF8?_utf8 (s : String) : String.fromUTF8? (utf8 s).toByteArray = some s := by
  have hbytes : (utf8 s).toByteArray = s.toByteArray := by
    rw [utf8_eq_flatMap, ← String.utf8Encode_toList, List.utf8Encode]
  rw [hbytes, String.fromUTF8?, dif_pos s.isValidUTF8]
  rfl

theorem utf8EncodeChar_newline : String.utf8EncodeChar '\n' = [10] := by
  decide

private theorem ofNat_ne_newline {n : Nat} (h : n % 256 ≠ 10) : 10 ≠ UInt8.ofNat n := by
  intro heq
  have htoNat := congrArg UInt8.toNat heq
  rw [UInt8.toNat_ofNat'] at htoNat
  exact h htoNat.symm

theorem newline_not_mem_utf8EncodeChar {c : Char} (h : c ≠ '\n') :
    10 ∉ String.utf8EncodeChar c := by
  have hval : c.val.toNat ≠ 10 := fun heq => h (Char.ext (UInt32.toNat_inj.mp heq))
  -- Only the form of one byte has a byte below 128, which is the code point itself.
  fun_cases String.utf8EncodeChar c <;>
    simp only [List.mem_cons, List.not_mem_nil, or_false, not_or]
  · exact ofNat_ne_newline (by omega)
  · exact ⟨ofNat_ne_newline (by omega), ofNat_ne_newline (by omega)⟩
  · exact ⟨ofNat_ne_newline (by omega), ofNat_ne_newline (by omega), ofNat_ne_newline (by omega)⟩
  · exact ⟨ofNat_ne_newline (by omega), ofNat_ne_newline (by omega), ofNat_ne_newline (by omega),
      ofNat_ne_newline (by omega)⟩

theorem count_utf8 (s : String) : (utf8 s).count 10 = s.toList.count '\n' := by
  rw [utf8_eq_flatMap]
  induction s.toList with
  | nil => rfl
  | cons c cs ih =>
      rw [List.flatMap_cons, List.count_append, ih, List.count_cons]
      by_cases hc : c = '\n'
      · subst hc
        rw [utf8EncodeChar_newline]
        simp [Nat.add_comm]
      · rw [List.count_eq_zero_of_not_mem (newline_not_mem_utf8EncodeChar hc)]
        simp [hc]

end BankedStore
