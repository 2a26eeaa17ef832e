import BankedStore.Proofs.Script.Grammar

/-!
# Numbers in hex fields

A hex field is an optional prefix, an optional plus sign and digits.  It is read to
the end if the digits spell a number of 64 bits.  If not, the first character that
settles the matter does: one that is no digit, or the digit by which the number has
become too large.  So a text that is neither empty nor overrun is called invalid.
-/

namespace BankedStore.Line

open Numeral

/-! ## What stands before the digits -/

structure HexParts (field rest digits : List Char) : Prop where
  unprefixed : field = '0' :: 'x' :: rest ∨ field = '0' :: 'X' :: rest ∨
    (field = rest ∧ ∀ more, field ≠ '0' :: 'x' :: more ∧ field ≠ '0' :: 'X' :: more)
  unsigned : Unsigned rest digits

theorem HexParts.stripHexPrefix_eq {field rest digits : List Char}
    (h : HexParts field rest digits) : stripHexPrefix field = rest := by
  rcases h.unprefixed with rfl | rfl | ⟨rfl, hbare⟩
  · rfl
  · rfl
  · rw [stripHexPrefix]
    · exact fun more hmore => (hbare more).1 hmore
    · exact fun more hmore => (hbare more).2 hmore

theorem exists_hexParts (field : List Char) : ∃ rest digits, HexParts field rest digits := by
  obtain ⟨digits, hdigits⟩ := exists_unsigned (stripHexPrefix field)
  refine ⟨stripHexPrefix field, digits, ?_, hdigits⟩
  unfold stripHexPrefix
  split
  · exact .inl rfl
  · exact .inr (.inl rfl)
  · rename_i hlower hupper
    exact .inr (.inr ⟨rfl, fun more => ⟨hlower more, hupper more⟩⟩)

theorem HexParts.unique {field rest digits others more : List Char}
    (h : HexParts field rest digits) (hothers : HexParts field others more) :
    rest = others ∧ digits = more := by
  obtain rfl := h.stripHexPrefix_eq.symm.trans hothers.stripHexPrefix_eq
  exact ⟨rfl, h.unsigned.unique hothers.unsigned⟩

/-! ## Reading -/

def EndsIn (text ending : String) : Prop :=
  ending.toList <:+ text.toList

theorem endsIn_number_iff {what field : String} {cause other : Numeral.Error} :
    EndsIn (LineError.number what field cause).message other.message ↔ cause = other := by
  have hdistinct : ∀ a b : Numeral.Error, a.message.toList <:+ b.message.toList → a = b := by
    intro a b
    cases a <;> cases b <;> decide +kernel
  have hcause : EndsIn (LineError.number what field cause).message cause.message := by
    change _ <:+ ("invalid " ++ what ++ " " ++ Text.quote field ++ ": " ++ cause.message).toList
    rw [String.toList_append]
    exact List.suffix_append ..
  constructor
  · intro hother
    rcases List.suffix_or_suffix_of_suffix hcause hother with h | h
    · exact hdistinct _ _ h
    · exact (hdistinct _ _ h).symm
  · rintro rfl
    exact hcause

structure HexOutcome (line : Nat) (what : String) (field rest digits : List Char) : Prop where
  value : ∀ value : UInt64,
    parseHex line what field = .ok value ↔ digits ≠ [] ∧ Spells 16 digits value.toNat
  accepted : (∃ value, parseHex line what field = .ok value) ↔
    digits ≠ [] ∧ ∃ n, Spells 16 digits n ∧ n < Size.limit
  refused : (∀ value, parseHex line what field ≠ .ok value) →
    ∃ cause, parseHex line what field = .error (.malformed line cause) ∧
      (EndsIn cause.message "cannot parse integer from empty string" ↔ rest = []) ∧
      (EndsIn cause.message "number too large to fit in target type" ↔ Overruns 16 digits) ∧
      (EndsIn cause.message "invalid digit found in string" ↔
        rest ≠ [] ∧ ¬ Overruns 16 digits)

section Outcome

variable {field rest digits : List Char}

theorem HexParts.parseHex_eq (h : HexParts field rest digits) (line : Nat) (what : String) :
    parseHex line what field =
      ((Numeral.read 16 rest).map Nat.toUInt64).mapError fun cause =>
        .malformed line (.number what (String.ofList field) cause) := by
  rw [parseHex, h.stripHexPrefix_eq]
  cases Numeral.read 16 rest <;> rfl

theorem HexParts.parseHex_eq_ok_iff (h : HexParts field rest digits) {line : Nat} {what : String}
    {value : UInt64} :
    parseHex line what field = .ok value ↔ digits ≠ [] ∧ Spells 16 digits value.toNat := by
  have hlimit : value.toNat < Size.limit := value.toNat_lt
  rw [parseHex_eq_ok_iff_denotes, h.stripHexPrefix_eq, ← read_eq_ok_iff le_rfl,
    h.unsigned.read_eq_ok_iff le_rfl, and_iff_left hlimit]

theorem HexParts.outcome (h : HexParts field rest digits) (line : Nat) (what : String) :
    HexOutcome line what field rest digits where
  value _ := h.parseHex_eq_ok_iff
  accepted := by
    simp only [h.parseHex_eq_ok_iff, exists_and_left]
    refine and_congr_right fun _ => ⟨fun ⟨value, hvalue⟩ => ⟨_, hvalue, value.toNat_lt⟩, ?_⟩
    rintro ⟨n, hspells, hn⟩
    exact ⟨n.toUInt64, by rwa [Nat.toUInt64_eq, UInt64.toNat_ofNat_of_lt' hn]⟩
  refused hrefused := by
    have hempty : Numeral.read 16 rest = .error .empty ↔ rest = [] :=
      h.unsigned.read_eq_empty_iff
    have hlarge : Numeral.read 16 rest = .error .tooLarge ↔ Overruns 16 digits :=
      h.unsigned.read_eq_tooLarge_iff le_rfl
    rw [h.parseHex_eq] at hrefused ⊢
    cases hread : Numeral.read 16 rest with
    | ok n => exact absurd (by rw [hread]; rfl) (hrefused n.toUInt64)
    | error cause =>
        rw [hread, Except.error.injEq] at hempty hlarge
        have hends : ∀ other : Numeral.Error,
            EndsIn (LineError.number what (String.ofList field) cause).message other.message ↔
              cause = other := fun _ => endsIn_number_iff
        refine ⟨_, rfl, (hends .empty).trans hempty, (hends .tooLarge).trans hlarge,
          (hends .invalidDigit).trans ?_⟩
        rw [ne_eq, ← hempty, ← hlarge]
        cases cause <;> decide

end Outcome

/-! ## Writing -/

theorem denotesHex_written {value : UInt64} {written : List Char}
    (hwritten : List.Forall₂ (fun c d => c = d ∨ c = d.toUpper) written
      (Numeral.hex value.toNat).toList)
    {start sign : List Char} (hstart : start ∈ [[], ['0', 'x'], ['0', 'X']])
    (hsign : sign ∈ [[], ['+']]) (zeros : Nat) :
    DenotesHex (start ++ (sign ++ (List.replicate zeros '0' ++ written))) value := by
  rw [Numeral.hex, String.toList_ofList] at hwritten
  have hhex : Spells 16 (Nat.toDigits 16 value.toNat) value.toNat :=
    spells_toDigits (by decide) value.toNat
  have hspells := hhex.recased le_rfl hwritten
  have hne : List.replicate zeros '0' ++ written ≠ [] := by
    intro hnil
    rw [(List.append_eq_nil_iff.mp hnil).2, List.forall₂_nil_left_iff] at hwritten
    exact Nat.toDigits_ne_nil hwritten
  refine ⟨sign ++ (List.replicate zeros '0' ++ written), ?_, _, ?_, hne,
    hspells.zeros (by decide) zeros, value.toNat_lt⟩
  · simp only [List.mem_cons, List.not_mem_nil, or_false] at hstart
    rcases hstart with rfl | rfl | rfl
    · exact .inl rfl
    · exact .inr (.inl rfl)
    · exact .inr (.inr rfl)
  · simp only [List.mem_cons, List.not_mem_nil, or_false] at hsign
    rcases hsign with rfl | rfl
    · exact .inl rfl
    · exact .inr rfl

/-- A hex field gives the number that it spells if that has 64 bits, and its message says in which
of three ways it fails if not.  Each number of 64 bits is read from all its spellings. -/
theorem parseHex_settled (line : Nat) (what : String) :
    (∀ field, ∃ rest digits, HexParts field rest digits ∧
        (∀ others more, HexParts field others more → rest = others ∧ digits = more) ∧
        HexOutcome line what field rest digits) ∧
      ∀ (value : UInt64) (written : List Char),
        List.Forall₂ (fun c d => c = d ∨ c = d.toUpper) written
            (Numeral.hex value.toNat).toList →
          ∀ start ∈ [[], ['0', 'x'], ['0', 'X']], ∀ sign ∈ [[], ['+']], ∀ zeros,
            parseHex line what (start ++ (sign ++ (List.replicate zeros '0' ++ written))) =
              .ok value := by
  refine ⟨fun field => ?_, fun value written hwritten start hstart sign hsign zeros => ?_⟩
  · obtain ⟨rest, digits, h⟩ := exists_hexParts field
    exact ⟨rest, digits, h, fun _ _ => h.unique, h.outcome line what⟩
  · exact Line.parseHex_eq_ok_iff.mpr (denotesHex_written hwritten hstart hsign zeros)

theorem parseHex_settled_race :
    (∀ value, parseHex 3 "data" "0xfffffffffffffffffg".toList ≠ .ok value) ∧
      (∃ cause, parseHex 3 "data" "0xfffffffffffffffffg".toList = .error (.malformed 3 cause) ∧
        EndsIn cause.message "number too large to fit in target type") ∧
      List.Forall₂ (fun c d => c = d ∨ c = d.toUpper) "BeEF".toList
        (Numeral.hex (0xbeef : UInt64).toNat).toList ∧
      parseHex 3 "data" "0X+00000000000000000BeEF".toList = .ok 0xbeef := by
  obtain ⟨hfields, hwritten⟩ := parseHex_settled 3 "data"
  have herror : parseHex 3 "data" "0xfffffffffffffffffg".toList =
      .error (.malformed 3 (.number "data" "0xfffffffffffffffffg" .tooLarge)) := by decide +kernel
  have hrefused : ∀ value, parseHex 3 "data" "0xfffffffffffffffffg".toList ≠ .ok value := by
    intro value hvalue
    rw [herror] at hvalue
    cases hvalue
  have hparts : HexParts "0xfffffffffffffffffg".toList "fffffffffffffffffg".toList
      "fffffffffffffffffg".toList :=
    ⟨.inl (by decide), .inr ⟨rfl, .inr (by decide)⟩⟩
  have hlarge : Overruns 16 "fffffffffffffffffg".toList :=
    (readDigits_zero_eq_tooLarge_iff le_rfl).mp (by decide +kernel)
  have hdigits : (Numeral.hex (0xbeef : UInt64).toNat).toList = ['b', 'e', 'e', 'f'] := by
    decide +kernel
  have hcase : List.Forall₂ (fun c d => c = d ∨ c = d.toUpper) "BeEF".toList
      (Numeral.hex (0xbeef : UInt64).toNat).toList := by
    rw [hdigits]
    exact .cons (by decide) (.cons (by decide) (.cons (by decide) (.cons (by decide) .nil)))
  refine ⟨hrefused, ?_, hcase, ?_⟩
  · obtain ⟨rest, digits, -, hunique, houtcome⟩ := hfields "0xfffffffffffffffffg".toList
    obtain ⟨rfl, rfl⟩ := hunique _ _ hparts
    obtain ⟨cause, hcause, -, hends, -⟩ := houtcome.refused hrefused
    exact ⟨cause, hcause, hends.mpr hlarge⟩
  · exact hwritten 0xbeef _ hcase ['0', 'X'] (by decide) ['+'] (by decide) 17

end BankedStore.Line
