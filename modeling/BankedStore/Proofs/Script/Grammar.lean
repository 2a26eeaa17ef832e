import BankedStore.Script.Line
import BankedStore.Proofs.Text.Numerals
import BankedStore.Proofs.Text.Trimming

/-!
# The grammar of script lines

A line either carries no command, being blank or a comment, or it has four fields
between commas that say what the command is.  Reading a line accepts exactly the
lines of this grammar, gives the command that the fields denote, and refuses every
other line.
-/

namespace BankedStore.Line

/-! ## Fields -/

/-- The pieces of the text between commas are these, once the blanks around each are gone. -/
def Separates (text : List Char) (trimmed : List (List Char)) : Prop :=
  ∃ pieces, pieces ≠ [] ∧ (∀ piece ∈ pieces, ',' ∉ piece) ∧ text = [','].intercalate pieces ∧
    List.Forall₂ Text.Trims pieces trimmed

theorem fields_eq_splitOn (text : List Char) : fields text = text.splitOn ',' := by
  induction text with
  | nil => rfl
  | cons c text ih =>
      rw [List.splitOn_cons_eq_if_modifyHead, ← ih]
      by_cases hc : c = ','
      · subst hc
        rfl
      · rw [if_neg (by simpa using hc), fields]
        · cases hrest : fields text with
          | nil => exact absurd (ih.symm.trans hrest) (List.splitOn_ne_nil _ _)
          | cons field more => rfl
        · exact hc

theorem not_mem_fields (text : List Char) : ∀ piece ∈ fields text, ',' ∉ piece := by
  induction text with
  | nil => simp [fields]
  | cons c text ih =>
      by_cases hc : c = ','
      · subst hc
        simpa [fields] using ih
      · rw [fields]
        · cases hrest : fields text with
          | nil => simpa using fun h => hc h.symm
          | cons field more =>
              rw [hrest] at ih
              simp only [List.mem_cons, forall_eq_or_imp, not_or] at ih ⊢
              exact ⟨⟨fun h => hc h.symm, ih.1⟩, ih.2⟩
        · exact hc

theorem fields_eq_iff {text : List Char} {pieces : List (List Char)} :
    fields text = pieces ↔
      pieces ≠ [] ∧ (∀ piece ∈ pieces, ',' ∉ piece) ∧ text = [','].intercalate pieces := by
  constructor
  · rintro rfl
    refine ⟨?_, not_mem_fields text, ?_⟩
    · rw [fields_eq_splitOn]
      exact List.splitOn_ne_nil _ _
    · rw [fields_eq_splitOn, List.intercalate_splitOn]
  · rintro ⟨hne, hpieces, rfl⟩
    rw [fields_eq_splitOn, List.splitOn_intercalate _ hpieces hne]

theorem map_trim_fields_eq_iff {text : List Char} {trimmed : List (List Char)} :
    (fields text).map Text.trim = trimmed ↔ Separates text trimmed := by
  have hmap : ∀ pieces : List (List Char), pieces.map Text.trim = trimmed ↔
      List.Forall₂ Text.Trims pieces trimmed := fun pieces => by
    rw [← List.forall₂_eq_eq_eq, List.forall₂_map_left_iff]
    simp only [Text.trim_eq_iff]
  constructor
  · intro h
    obtain ⟨hne, hpieces, htext⟩ := fields_eq_iff.mp (rfl : fields text = fields text)
    exact ⟨fields text, hne, hpieces, htext, (hmap _).mp h⟩
  · rintro ⟨pieces, hne, hpieces, htext, htrims⟩
    rw [fields_eq_iff.mpr ⟨hne, hpieces, htext⟩]
    exact (hmap _).mpr htrims

/-! ## What fields denote -/

def DenotesHex (field : List Char) (value : UInt64) : Prop :=
  ∃ numeral, (field = numeral ∨ field = '0' :: 'x' :: numeral ∨ field = '0' :: 'X' :: numeral) ∧
    Numeral.Denotes 16 numeral value.toNat

def DenotesCommand (line : Nat) (fields : List (List Char)) (c : Command) : Prop :=
  ∃ delay kind addr data, fields = [delay, kind, addr, data] ∧
    Numeral.Denotes 10 delay c.delay.toNat ∧ DenotesHex addr c.request.addr ∧
    DenotesHex data c.request.data ∧ c.line = line ∧
    ((kind = ['W'] ∧ c.request = .write c.request.addr c.request.data) ∨
      (kind = ['R'] ∧ c.request = .read c.request.addr c.request.data))

theorem read_eq_ok_toNat_iff {base : Nat} (hbase : base ≤ 16) {text : List Char} {value : UInt64} :
    (∃ n, Numeral.read base text = .ok n ∧ n.toUInt64 = value) ↔
      Numeral.Denotes base text value.toNat := by
  constructor
  · rintro ⟨n, hread, rfl⟩
    have hn := (Numeral.read_eq_ok_iff hbase).mp hread
    rwa [Nat.toUInt64_eq, UInt64.toNat_ofNat_of_lt' hn.lt_limit]
  · intro h
    exact ⟨value.toNat, (Numeral.read_eq_ok_iff hbase).mpr h, by simp⟩

theorem parseDelay_eq_ok_iff {line : Nat} {field : List Char} {value : UInt64} :
    parseDelay line field = .ok value ↔ Numeral.Denotes 10 field value.toNat := by
  rw [← read_eq_ok_toNat_iff (by decide), parseDelay]
  cases Numeral.read 10 field <;> simp

theorem stripHexPrefix_eq_self {numeral : List Char} {value : Nat}
    (h : Numeral.Denotes 16 numeral value) : stripHexPrefix numeral = numeral := by
  obtain ⟨digits, htext, -, hspells, -⟩ := h
  unfold stripHexPrefix
  -- After a zero the letter of a prefix would have to be a digit, which it is not.
  split
  · rcases htext with rfl | htext
    · exact absurd (by decide) (hspells.digit?_ne_none le_rfl (c := 'x') (by simp))
    · exact absurd htext (by simp)
  · rcases htext with rfl | htext
    · exact absurd (by decide) (hspells.digit?_ne_none le_rfl (c := 'X') (by simp))
    · exact absurd htext (by simp)
  · rfl

theorem parseHex_eq_ok_iff_denotes {line : Nat} {what : String} {field : List Char}
    {value : UInt64} :
    parseHex line what field = .ok value ↔
      Numeral.Denotes 16 (stripHexPrefix field) value.toNat := by
  rw [← read_eq_ok_toNat_iff (by decide), parseHex]
  cases Numeral.read 16 (stripHexPrefix field) <;> simp

theorem parseHex_eq_ok_iff {line : Nat} {what : String} {field : List Char} {value : UInt64} :
    parseHex line what field = .ok value ↔ DenotesHex field value := by
  rw [parseHex_eq_ok_iff_denotes]
  constructor
  · intro h
    refine ⟨stripHexPrefix field, ?_, h⟩
    unfold stripHexPrefix
    split
    · exact .inr (.inl rfl)
    · exact .inr (.inr rfl)
    · exact .inl rfl
  · rintro ⟨numeral, rfl | rfl | rfl, h⟩
    · rwa [stripHexPrefix_eq_self h]
    · exact h
    · exact h

theorem parseFields_eq_ok_iff {line : Nat} {fields : List (List Char)} {c : Command} :
    parseFields line fields = .ok c ↔ DenotesCommand line fields c := by
  constructor
  · intro h
    unfold parseFields at h
    split at h
    · rename_i delay kind addr data
      cases hdelay : parseDelay line delay with
      | error e => simp [hdelay, bind, Except.bind] at h
      | ok cycles =>
      cases haddr : parseHex line "address" addr with
      | error e => simp [hdelay, haddr, bind, Except.bind] at h
      | ok address =>
      cases hdata : parseHex line "data" data with
      | error e => simp [hdelay, haddr, hdata, bind, Except.bind] at h
      | ok word =>
      simp only [hdelay, haddr, hdata, bind, Except.bind] at h
      rw [parseDelay_eq_ok_iff] at hdelay
      rw [parseHex_eq_ok_iff] at haddr hdata
      split at h
      · cases h
        exact ⟨delay, kind, addr, data, rfl, hdelay, haddr, hdata, rfl, .inl ⟨‹_›, rfl⟩⟩
      · split at h
        · cases h
          exact ⟨delay, kind, addr, data, rfl, hdelay, haddr, hdata, rfl, .inr ⟨‹_›, rfl⟩⟩
        · cases h
    · cases h
  · rintro ⟨delay, kind, addr, data, rfl, hdelay, haddr, hdata, rfl, hkind⟩
    rw [parseFields, parseDelay_eq_ok_iff.mpr hdelay, parseHex_eq_ok_iff.mpr haddr,
      parseHex_eq_ok_iff.mpr hdata]
    rcases hkind with ⟨rfl, hrequest⟩ | ⟨rfl, hrequest⟩
    · simp [bind, Except.bind, pure, Except.pure, ← hrequest]
    · simp [bind, Except.bind, pure, Except.pure, ← hrequest]

/-! ## Lines -/

def Skipped (text : String) : Prop :=
  ∃ core, Text.Trims text.toList core ∧ (core = [] ∨ ∃ comment, core = '#' :: comment)

def Carries (line : Nat) (text : String) (c : Command) : Prop :=
  ¬ Skipped text ∧ ∃ core fields, Text.Trims text.toList core ∧ Separates core fields ∧
    DenotesCommand line fields c

theorem skipped_iff {text : String} :
    Skipped text ↔
      Text.trim text.toList = [] ∨ ∃ comment, Text.trim text.toList = '#' :: comment := by
  simp only [Skipped, ← Text.trim_eq_iff, exists_eq_left']

theorem parse_of_skipped {line : Nat} {text : String} (h : Skipped text) :
    parse line text = .ok none := by
  rcases skipped_iff.mp h with htrim | ⟨comment, htrim⟩
  · rw [parse, htrim]
  · rw [parse, htrim]
    rfl

theorem parse_of_not_skipped {line : Nat} {text : String} (h : ¬ Skipped text) :
    parse line text =
      (parseFields line ((fields (Text.trim text.toList)).map Text.trim)).map some := by
  rw [skipped_iff, not_or] at h
  unfold parse
  split
  · exact absurd ‹_› h.1
  · exact absurd ⟨_, ‹_›⟩ h.2
  · rfl

theorem parse_eq_ok_none_iff {line : Nat} {text : String} :
    parse line text = .ok none ↔ Skipped text := by
  refine ⟨fun h => ?_, parse_of_skipped⟩
  by_contra hskip
  rw [parse_of_not_skipped hskip] at h
  cases hfields : parseFields line ((fields (Text.trim text.toList)).map Text.trim) <;>
    simp [hfields, Except.map] at h

theorem parse_eq_ok_some_iff {line : Nat} {text : String} {c : Command} :
    parse line text = .ok (some c) ↔ Carries line text c := by
  have hcarries : Carries line text c ↔ ¬ Skipped text ∧
      parseFields line ((fields (Text.trim text.toList)).map Text.trim) = .ok c := by
    simp only [Carries, parseFields_eq_ok_iff, ← Text.trim_eq_iff, ← map_trim_fields_eq_iff,
      exists_and_left, exists_eq_left']
  rw [hcarries]
  by_cases hskip : Skipped text
  · simp [hskip, parse_of_skipped]
  · rw [parse_of_not_skipped hskip]
    cases hfields : parseFields line ((fields (Text.trim text.toList)).map Text.trim) <;>
      simp [hskip, Except.map]

/-- A line is blank or a comment and carries nothing, or has the fields of a command and carries
it, or is an error. -/
theorem parse_accepts_grammar (line : Nat) (text : String) :
    (parse line text = .ok none ↔ Skipped text) ∧
      (∀ c, parse line text = .ok (some c) ↔ Carries line text c) ∧
      ((∃ e, parse line text = .error e) ↔ ¬ Skipped text ∧ ∀ c, ¬ Carries line text c) := by
  have hnone : parse line text = .ok none ↔ Skipped text := parse_eq_ok_none_iff
  refine ⟨hnone, fun c => parse_eq_ok_some_iff, ?_⟩
  simp only [← hnone, ← parse_eq_ok_some_iff]
  rcases parse line text with e | _ | c <;> simp

/-- The prefix comes before the sign. -/
example : parse 3 "\t+07 ,R, 0X+fF,0\r\n" = .ok (some ⟨7, .read 255 0, 3⟩) ∧
    parse 3 "7,R,+0xff,0" = .error (.malformed 3 (.number "address" "+0xff" .invalidDigit)) := by
  decide

end BankedStore.Line
