import Mathlib.Data.Nat.Digits.Lemmas
import BankedStore.Text.Numeral

/-!
# What a numeral denotes

Digits spell a number in positional notation, the most significant first.  Reading
a text gives a number exactly when the text is an optional plus sign and at least
one digit, and the number that the digits spell is a size.  Leading zeros make no
difference, so the length of the text is no bound.
-/

namespace BankedStore.Numeral

/-- The character is the digit of this value, in either case; the base is at most 16. -/
def IsDigit (base : Nat) (c : Char) (value : Nat) : Prop :=
  value < base ∧ (c = value.digitChar ∨ c = value.digitChar.toUpper)

def Spells (base : Nat) (digits : List Char) (value : Nat) : Prop :=
  ∃ values, List.Forall₂ (IsDigit base) digits values ∧
    value = Nat.ofDigits base values.reverse

def Denotes (base : Nat) (text : List Char) (value : Nat) : Prop :=
  ∃ digits, (text = digits ∨ text = '+' :: digits) ∧ digits ≠ [] ∧ Spells base digits value ∧
    value < Size.limit

theorem Denotes.lt_limit {base value : Nat} {text : List Char} (h : Denotes base text value) :
    value < Size.limit := by
  obtain ⟨-, -, -, -, hlimit⟩ := h
  exact hlimit

private theorem toNat_digitChar_letter {value : Nat} (h : 10 ≤ value) (hsmall : value < 16) :
    value.digitChar.toNat = value + 87 ∧ value.digitChar.toUpper.toNat = value + 55 := by
  interval_cases value <;> decide

theorem digit?_eq_some_iff {base value : Nat} {c : Char} (hbase : base ≤ 16) :
    digit? base c = some value ↔ IsDigit base c value := by
  rw [digit?, Option.filter_eq_some_iff]
  constructor
  · rintro ⟨hchar, hvalue⟩
    have hvalue : value < base := by simpa using hvalue
    refine ⟨hvalue, ?_⟩
    split at hchar
    · rename_i hrange
      have hlow : 48 ≤ c.toNat := hrange.1
      have hhigh : c.toNat ≤ 57 := hrange.2
      have hdigit : c.toNat - 48 = value := Option.some.inj hchar
      left
      rw [← Char.toNat_inj, Nat.toNat_digitChar_of_lt_ten (by omega)]
      omega
    · split at hchar
      · rename_i hrange
        have hlow : 97 ≤ c.toNat := hrange.1
        have hdigit : c.toNat - 97 + 10 = value := Option.some.inj hchar
        left
        rw [← Char.toNat_inj, (toNat_digitChar_letter (by omega) (by omega)).1]
        omega
      · split at hchar
        · rename_i hrange
          have hlow : 65 ≤ c.toNat := hrange.1
          have hdigit : c.toNat - 65 + 10 = value := Option.some.inj hchar
          right
          rw [← Char.toNat_inj, (toNat_digitChar_letter (by omega) (by omega)).2]
          omega
        · cases hchar
  · rintro ⟨hvalue, hc⟩
    have hsmall : value < 16 := by omega
    refine ⟨?_, by simpa using hvalue⟩
    clear hvalue
    interval_cases value <;> rcases hc with rfl | rfl <;> decide

private theorem shift_digit (base start d : Nat) (values : List Nat) :
    start * base ^ (d :: values).length + Nat.ofDigits base (d :: values).reverse =
      (base * start + d) * base ^ values.length + Nat.ofDigits base values.reverse := by
  rw [List.reverse_cons, Nat.ofDigits_append, Nat.ofDigits_singleton, List.length_reverse,
    List.length_cons, pow_succ]
  ring

theorem readDigits_eq_ok_iff {base start value : Nat} (hbase : base ≤ 16) {digits : List Char}
    (hstart : start < Size.limit) :
    readDigits base start digits = .ok value ↔
      value < Size.limit ∧ ∃ values, List.Forall₂ (IsDigit base) digits values ∧
        value = start * base ^ values.length + Nat.ofDigits base values.reverse := by
  induction digits generalizing start with
  | nil =>
      constructor
      · intro h
        cases h
        exact ⟨hstart, [], .nil, by simp⟩
      · rintro ⟨-, _, ⟨⟩, rfl⟩
        simp [readDigits]
  | cons c digits ih =>
      -- The number read so far only grows from there on.
      rw [readDigits]
      constructor
      · intro h
        cases hc : digit? base c with
        | none =>
            rw [hc] at h
            cases h
        | some d =>
            rw [hc] at h
            dsimp only at h
            by_cases hfits : base * start + d < Size.limit
            · rw [if_pos hfits] at h
              obtain ⟨hvalue, values, hdigits, hsum⟩ := (ih hfits).mp h
              exact ⟨hvalue, d :: values, .cons ((digit?_eq_some_iff hbase).mp hc) hdigits,
                hsum.trans (shift_digit base start d values).symm⟩
            · rw [if_neg hfits] at h
              cases h
      · rintro ⟨hvalue, _, hall, hsum⟩
        cases hall with
        | @cons _ d _ values hc hdigits =>
            have hpow : 1 ≤ base ^ values.length :=
              Nat.one_le_pow _ _ (Nat.zero_lt_of_lt hc.1)
            have hgrow : base * start + d ≤ (base * start + d) * base ^ values.length :=
              Nat.le_mul_of_pos_right _ hpow
            rw [shift_digit] at hsum
            have hfits : base * start + d < Size.limit := by omega
            rw [(digit?_eq_some_iff hbase).mpr hc]
            dsimp only
            rw [if_pos hfits, ih hfits]
            exact ⟨hvalue, values, hdigits, hsum⟩

theorem readDigits_zero_eq_ok_iff {base value : Nat} (hbase : base ≤ 16) {digits : List Char} :
    readDigits base 0 digits = .ok value ↔ Spells base digits value ∧ value < Size.limit := by
  rw [readDigits_eq_ok_iff hbase (by decide), and_comm]
  simp [Spells]

theorem Spells.exists_isDigit {base value : Nat} {digits : List Char}
    (h : Spells base digits value) {c : Char} (hc : c ∈ digits) : ∃ d, IsDigit base c d := by
  obtain ⟨values, hall, -⟩ := h
  obtain ⟨i, hi, rfl⟩ := List.getElem_of_mem hc
  exact ⟨_, hall.get hi (hall.length_eq ▸ hi)⟩

theorem Spells.digit?_ne_none {base value : Nat} (hbase : base ≤ 16) {digits : List Char}
    (h : Spells base digits value) {c : Char} (hc : c ∈ digits) : digit? base c ≠ none := by
  obtain ⟨d, hd⟩ := h.exists_isDigit hc
  simp [(digit?_eq_some_iff hbase).mpr hd]

theorem read_eq_ok_iff {base value : Nat} (hbase : base ≤ 16) {text : List Char} :
    read base text = .ok value ↔ Denotes base text value := by
  constructor
  · intro h
    unfold read at h
    split at h
    · cases h
    · cases h
    · rename_i digits hne
      rw [readDigits_zero_eq_ok_iff hbase] at h
      exact ⟨digits, .inr rfl, by rintro rfl; exact hne rfl, h⟩
    · rename_i hne _ _
      rw [readDigits_zero_eq_ok_iff hbase] at h
      exact ⟨text, .inl rfl, hne, h⟩
  · rintro ⟨digits, htext, hne, hspells, hvalue⟩
    have hread := (readDigits_zero_eq_ok_iff hbase).mpr ⟨hspells, hvalue⟩
    obtain ⟨c, rest, rfl⟩ := List.exists_cons_of_ne_nil hne
    rcases htext with rfl | rfl
    · have hsign : c ≠ '+' := by
        rintro rfl
        exact hspells.digit?_ne_none hbase List.mem_cons_self (by simp [digit?])
      rw [read]
      · exact hread
      · exact hne
      · exact fun h => hsign (List.cons.inj h).1
      · exact fun _ h => hsign (List.cons.inj h).1
    · exact hread

/-! ## Texts that are no number -/

/-- Some characters from the first on are digits, and they alone spell too large a number. -/
def Overruns (base : Nat) (digits : List Char) : Prop :=
  ∃ run value, run <+: digits ∧ Spells base run value ∧ Size.limit ≤ value

private def OverrunsFrom (base start : Nat) (digits : List Char) : Prop :=
  ∃ run values, run <+: digits ∧ List.Forall₂ (IsDigit base) run values ∧
    Size.limit ≤ start * base ^ values.length + Nat.ofDigits base values.reverse

private theorem overrunsFrom_of_limit_le {base start : Nat} (digits : List Char)
    (h : Size.limit ≤ start) : OverrunsFrom base start digits :=
  ⟨[], [], List.nil_prefix, .nil, by simpa using h⟩

private theorem not_overrunsFrom_nil {base start : Nat} (h : start < Size.limit) :
    ¬ OverrunsFrom base start [] := by
  rintro ⟨run, values, hrun, hdigits, hlarge⟩
  cases List.prefix_nil.mp hrun
  cases hdigits
  exact absurd h (by simpa using hlarge)

private theorem overrunsFrom_cons {base start : Nat} {c : Char} {digits : List Char}
    (h : start < Size.limit) :
    OverrunsFrom base start (c :: digits) ↔
      ∃ d, IsDigit base c d ∧ OverrunsFrom base (base * start + d) digits := by
  constructor
  · rintro ⟨run, values, hrun, hdigits, hlarge⟩
    cases hdigits with
    | nil => exact absurd h (by simpa using hlarge)
    | @cons _ d run values hd hdigits =>
        obtain ⟨rfl, htail⟩ := List.cons_prefix_cons.mp hrun
        exact ⟨d, hd, run, values, htail, hdigits, by rwa [shift_digit] at hlarge⟩
  · rintro ⟨d, hd, run, values, hrun, hdigits, hlarge⟩
    exact ⟨c :: run, d :: values, List.cons_prefix_cons.mpr ⟨rfl, hrun⟩, .cons hd hdigits,
      by rwa [shift_digit]⟩

private theorem readDigits_eq_tooLarge_iff {base start : Nat} (hbase : base ≤ 16)
    {digits : List Char} (hstart : start < Size.limit) :
    readDigits base start digits = .error .tooLarge ↔ OverrunsFrom base start digits := by
  induction digits generalizing start with
  | nil => exact iff_of_false (by simp [readDigits]) (not_overrunsFrom_nil hstart)
  | cons c digits ih =>
      simp only [overrunsFrom_cons hstart, ← digit?_eq_some_iff hbase]
      rw [readDigits]
      cases digit? base c with
      | none => simp
      | some d =>
          by_cases hfits : base * start + d < Size.limit
          · simp [hfits, ih hfits]
          · simp [hfits, overrunsFrom_of_limit_le digits (Nat.not_lt.mp hfits)]

theorem readDigits_zero_eq_tooLarge_iff {base : Nat} (hbase : base ≤ 16) {digits : List Char} :
    readDigits base 0 digits = .error .tooLarge ↔ Overruns base digits := by
  rw [readDigits_eq_tooLarge_iff hbase (by decide)]
  simp only [OverrunsFrom, Overruns, Spells, Nat.zero_mul, Nat.zero_add]
  constructor
  · rintro ⟨run, values, hrun, hdigits, hlarge⟩
    exact ⟨run, _, hrun, ⟨values, hdigits, rfl⟩, hlarge⟩
  · rintro ⟨run, _, hrun, ⟨values, hdigits, rfl⟩, hlarge⟩
    exact ⟨run, values, hrun, hdigits, hlarge⟩

theorem readDigits_ne_empty (base start : Nat) (digits : List Char) :
    readDigits base start digits ≠ .error .empty := by
  induction digits generalizing start with
  | nil => simp [readDigits]
  | cons c digits ih =>
      rw [readDigits]
      cases digit? base c with
      | none => simp
      | some d =>
          dsimp only
          split
          · exact ih _
          · simp

/-- The text without a plus sign, unless the sign is all there is. -/
def Unsigned (text digits : List Char) : Prop :=
  (text = '+' :: digits ∧ digits ≠ []) ∨
    (text = digits ∧ (text = ['+'] ∨ text.head? ≠ some '+'))

theorem exists_unsigned (text : List Char) : ∃ digits, Unsigned text digits := by
  by_cases hsign : text = ['+'] ∨ text.head? ≠ some '+'
  · exact ⟨text, .inr ⟨rfl, hsign⟩⟩
  · obtain ⟨halone, hhead⟩ := not_or.mp hsign
    obtain ⟨digits, rfl⟩ := List.head?_eq_some_iff.mp (not_not.mp hhead)
    exact ⟨digits, .inl ⟨rfl, fun hnil => halone (hnil ▸ rfl)⟩⟩

theorem Unsigned.unique {text digits others : List Char} (h : Unsigned text digits)
    (hothers : Unsigned text others) : digits = others := by
  rcases h with ⟨rfl, hne⟩ | ⟨rfl, hsign⟩
  · rcases hothers with ⟨hsame, -⟩ | ⟨-, halone | hhead⟩
    · exact (List.cons.inj hsame).2
    · exact absurd (List.cons.inj halone).2 hne
    · exact absurd rfl hhead
  · rcases hothers with ⟨rfl, hne⟩ | ⟨rfl, -⟩
    · rcases hsign with halone | hhead
      · exact absurd (List.cons.inj halone).2 hne
      · exact absurd rfl hhead
    · rfl

theorem Unsigned.eq_nil_iff {text digits : List Char} (h : Unsigned text digits) :
    digits = [] ↔ text = [] := by
  rcases h with ⟨rfl, hne⟩ | ⟨rfl, -⟩
  · simp [hne]
  · exact Iff.rfl

section Unsigned

variable {base : Nat} {text digits : List Char}

theorem read_of_unsigned (h : Unsigned text digits) (hne : text ≠ []) :
    read base text = readDigits base 0 digits := by
  rcases h with ⟨rfl, hdigits⟩ | ⟨rfl, rfl | hhead⟩
  · rw [read]
    exact hdigits
  · -- A sign alone is read as if it were a digit, which it is not.
    simp [read, readDigits, digit?]
  · rw [read]
    · exact hne
    · rintro rfl
      exact hhead rfl
    · rintro digits rfl
      exact hhead rfl

theorem Unsigned.read_eq_ok_iff (hbase : base ≤ 16) (h : Unsigned text digits) {value : Nat} :
    read base text = .ok value ↔ digits ≠ [] ∧ Spells base digits value ∧ value < Size.limit := by
  rw [ne_eq, h.eq_nil_iff]
  by_cases htext : text = []
  · simp [htext, read]
  · rw [read_of_unsigned h htext, readDigits_zero_eq_ok_iff hbase, and_iff_right htext]

theorem Unsigned.read_eq_empty_iff (h : Unsigned text digits) :
    read base text = .error .empty ↔ text = [] := by
  by_cases htext : text = []
  · simp [htext, read]
  · rw [read_of_unsigned h htext]
    exact iff_of_false (readDigits_ne_empty base 0 digits) htext

theorem Unsigned.read_eq_tooLarge_iff (hbase : base ≤ 16) (h : Unsigned text digits) :
    read base text = .error .tooLarge ↔ Overruns base digits := by
  rw [← readDigits_zero_eq_tooLarge_iff hbase]
  by_cases htext : text = []
  · simp [htext, h.eq_nil_iff.mpr htext, read, readDigits]
  · rw [read_of_unsigned h htext]

end Unsigned

/-! ## Numerals of any size -/

private theorem foldlM_digit? {base start : Nat} (hbase : base ≤ 16) {digits : List Char}
    {values : List Nat} (h : List.Forall₂ (IsDigit base) digits values) :
    digits.foldlM (fun value c => (digit? base c).map (base * value + ·)) start =
      some (start * base ^ values.length + Nat.ofDigits base values.reverse) := by
  induction h generalizing start with
  | nil => simp
  | @cons c d digits values hc _ ih =>
      rw [List.foldlM_cons, (digit?_eq_some_iff hbase).mpr hc, shift_digit]
      exact ih

theorem ofDigits?_of_spells {base value : Nat} (hbase : base ≤ 16) {digits : List Char}
    (h : Spells base digits value) : ofDigits? base digits = some value := by
  obtain ⟨values, hdigits, rfl⟩ := h
  simp [ofDigits?, foldlM_digit? hbase hdigits]

/-! ## Numbers written out -/

theorem ofDigits_map_range (base n count : Nat) :
    Nat.ofDigits base ((List.range count).map fun i => n / base ^ i % base) =
      n % base ^ count := by
  induction count with
  | zero => simp [Nat.mod_one]
  | succ count ih =>
      rw [List.range_succ, List.map_append, Nat.ofDigits_append, ih, List.length_map,
        List.length_range, Nat.mod_pow_succ]
      simp

theorem spells_toDigits {base : Nat} (hbase : 1 < base) (n : Nat) :
    Spells base (Nat.toDigits base n) n := by
  induction n using Nat.strong_induction_on with
  | _ n ih =>
      rcases Nat.lt_or_ge n base with hn | hn
      · rw [Nat.toDigits_of_lt_base hn]
        exact ⟨[n], .cons ⟨hn, .inl rfl⟩ .nil, by simp⟩
      · obtain ⟨values, hall, hvalue⟩ := ih (n / base) (Nat.div_lt_self (by omega) hbase)
        have hlast : IsDigit base (n % base).digitChar (n % base) :=
          ⟨Nat.mod_lt _ (by omega), .inl rfl⟩
        rw [Nat.toDigits_of_base_le hbase hn]
        refine ⟨values ++ [n % base], List.rel_append hall (.cons hlast .nil), ?_⟩
        rw [List.reverse_append, List.reverse_singleton, List.singleton_append, Nat.ofDigits_cons,
          ← hvalue]
        exact (Nat.mod_add_div n base).symm

theorem ofDigits?_toDigits {base : Nat} (hone : 1 < base) (hbase : base ≤ 16) (n : Nat) :
    ofDigits? base (Nat.toDigits base n) = some n :=
  ofDigits?_of_spells hbase (spells_toDigits hone n)

theorem not_mem_toDigits {base : Nat} (hone : 1 < base) (hbase : base ≤ 16) {c : Char}
    (hc : digit? base c = none) (n : Nat) : c ∉ Nat.toDigits base n := fun hmem =>
  (spells_toDigits hone n).digit?_ne_none hbase hmem hc

theorem toDigits_ends {base : Nat} (hone : 1 < base) (hbase : base ≤ 16) {stop : Char}
    (hstop : digit? base stop = none) (n : Nat) (rest : List Char) :
    (Nat.toDigits base n ++ stop :: rest).takeWhile (· ≠ stop) = Nat.toDigits base n ∧
      (Nat.toDigits base n ++ stop :: rest).dropWhile (· ≠ stop) = stop :: rest := by
  have hdigits : ∀ c ∈ Nat.toDigits base n, decide (c ≠ stop) = true := by
    intro c hc
    have hne : c ≠ stop := fun heq => not_mem_toDigits hone hbase hstop n (heq ▸ hc)
    exact decide_eq_true hne
  rw [List.takeWhile_append_of_pos hdigits, List.dropWhile_append_of_pos hdigits]
  simp

theorem Spells.zeros {base value : Nat} {digits : List Char} (hbase : 0 < base)
    (h : Spells base digits value) (zeros : Nat) :
    Spells base (List.replicate zeros '0' ++ digits) value := by
  obtain ⟨values, hdigits, rfl⟩ := h
  refine ⟨List.replicate zeros 0 ++ values, List.rel_append ?_ hdigits, ?_⟩
  · induction zeros with
    | zero => exact .nil
    | succ zeros ih => exact .cons ⟨hbase, .inl rfl⟩ ih
  · rw [List.reverse_append, List.reverse_replicate, Nat.ofDigits_append_replicate_zero]

private theorem isDigit_toUpper {base value : Nat} {c : Char} (hbase : base ≤ 16)
    (h : IsDigit base c value) : IsDigit base c.toUpper value := by
  obtain ⟨hvalue, hc⟩ := h
  refine ⟨hvalue, .inr ?_⟩
  have hsmall : value < 16 := by omega
  clear hvalue
  interval_cases value <;> rcases hc with rfl | rfl <;> decide

theorem Spells.recased {base value : Nat} (hbase : base ≤ 16) {digits written : List Char}
    (h : Spells base digits value)
    (hwritten : List.Forall₂ (fun c d => c = d ∨ c = d.toUpper) written digits) :
    Spells base written value := by
  obtain ⟨values, hdigits, rfl⟩ := h
  refine ⟨values, ?_, rfl⟩
  induction hwritten generalizing values with
  | nil => exact hdigits
  | cons hc _ ih =>
      cases hdigits with
      | cons hd hdigits =>
          refine .cons ?_ (ih _ hdigits)
          rcases hc with rfl | rfl
          · exact hd
          · exact isDigit_toUpper hbase hd

theorem denotes_toDigits {base n : Nat} (hbase : 1 < base) (hn : n < Size.limit) :
    Denotes base (Nat.toDigits base n) n :=
  ⟨_, .inl rfl, Nat.toDigits_ne_nil, spells_toDigits hbase n, hn⟩

end BankedStore.Numeral
