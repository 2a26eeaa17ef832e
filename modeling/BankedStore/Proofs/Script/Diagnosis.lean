import BankedStore.Proofs.Script.Spacing

/-!
# What is wrong with a line

A line that is neither skipped nor accepted has one fault to report, the first in
the order count, delay, address, data, kind.  So a bad kind is only reported where
all numbers are good.
-/

namespace BankedStore.Line

def NoHex (field : List Char) (cause : Numeral.Error) : Prop :=
  (∀ value, ¬ DenotesHex field value) ∧
    Numeral.read 16 (stripHexPrefix field) = .error cause

inductive Faults (line : Nat) : List (List Char) → ScriptError → Prop
  | count {fields : List (List Char)} (h : fields.length ≠ 4) :
      Faults line fields (.malformed line (.fieldCount fields.length))
  | delay {delay kind addr data : List Char} (h : ∀ n, ¬ Numeral.Denotes 10 delay n) :
      Faults line [delay, kind, addr, data] (.malformed line (.delay (String.ofList delay)))
  | address {delay kind addr data : List Char} {cause : Numeral.Error}
      (hdelay : ∃ n, Numeral.Denotes 10 delay n) (h : NoHex addr cause) :
      Faults line [delay, kind, addr, data]
        (.malformed line (.number "address" (String.ofList addr) cause))
  | data {delay kind addr data : List Char} {cause : Numeral.Error}
      (hdelay : ∃ n, Numeral.Denotes 10 delay n) (haddr : ∃ value, DenotesHex addr value)
      (h : NoHex data cause) :
      Faults line [delay, kind, addr, data]
        (.malformed line (.number "data" (String.ofList data) cause))
  | kind {delay kind addr data : List Char} (hdelay : ∃ n, Numeral.Denotes 10 delay n)
      (haddr : ∃ value, DenotesHex addr value) (hdata : ∃ value, DenotesHex data value)
      (hwrite : kind ≠ ['W']) (hread : kind ≠ ['R']) :
      Faults line [delay, kind, addr, data] (.unknownKind line (String.ofList kind))

/-! ## Fields -/

theorem exists_parseDelay_eq_ok_iff {line : Nat} {field : List Char} :
    (∃ value, parseDelay line field = .ok value) ↔ ∃ n, Numeral.Denotes 10 field n := by
  simp only [parseDelay_eq_ok_iff]
  constructor
  · rintro ⟨value, h⟩
    exact ⟨value.toNat, h⟩
  · rintro ⟨n, h⟩
    exact ⟨n.toUInt64, by rwa [Nat.toUInt64_eq, UInt64.toNat_ofNat_of_lt' h.lt_limit]⟩

theorem parseDelay_eq_error_iff {line : Nat} {field : List Char} {e : ScriptError} :
    parseDelay line field = .error e ↔
      (∀ n, ¬ Numeral.Denotes 10 field n) ∧
        e = .malformed line (.delay (String.ofList field)) := by
  rw [← not_exists, ← @exists_parseDelay_eq_ok_iff line, parseDelay]
  cases Numeral.read 10 field <;> simp [eq_comm]

theorem parseHex_eq_error_iff {line : Nat} {what : String} {field : List Char}
    {e : ScriptError} :
    parseHex line what field = .error e ↔
      ∃ cause, NoHex field cause ∧
        e = .malformed line (.number what (String.ofList field) cause) := by
  simp only [NoHex, ← @parseHex_eq_ok_iff line what]
  unfold parseHex
  cases Numeral.read 16 (stripHexPrefix field) <;> simp [eq_comm]

private theorem faults_of_parseFields {line : Nat} {fields : List (List Char)} {e : ScriptError}
    (h : parseFields line fields = .error e) : Faults line fields e := by
  unfold parseFields at h
  split at h
  · rename_i delay kind addr data
    cases hdelay : parseDelay line delay with
    | error _ =>
        rw [hdelay] at h
        cases h
        obtain ⟨hbad, rfl⟩ := parseDelay_eq_error_iff.mp hdelay
        exact .delay hbad
    | ok cycles =>
    have hcycles := exists_parseDelay_eq_ok_iff.mp ⟨cycles, hdelay⟩
    cases haddr : parseHex line "address" addr with
    | error _ =>
        rw [hdelay, haddr] at h
        cases h
        obtain ⟨cause, hbad, rfl⟩ := parseHex_eq_error_iff.mp haddr
        exact .address hcycles hbad
    | ok address =>
    have haddress := parseHex_eq_ok_iff.mp haddr
    cases hdata : parseHex line "data" data with
    | error _ =>
        rw [hdelay, haddr, hdata] at h
        cases h
        obtain ⟨cause, hbad, rfl⟩ := parseHex_eq_error_iff.mp hdata
        exact .data hcycles ⟨address, haddress⟩ hbad
    | ok word =>
    have hword := parseHex_eq_ok_iff.mp hdata
    simp only [hdelay, haddr, hdata, bind, Except.bind] at h
    split at h
    · cases h
    · split at h
      · cases h
      · cases h
        exact .kind hcycles ⟨address, haddress⟩ ⟨word, hword⟩ ‹_› ‹_›
  · rename_i hshape
    cases h
    refine .count fun hlength => ?_
    obtain ⟨delay, kind, addr, data, rfl⟩ := List.length_eq_four.mp hlength
    exact hshape delay kind addr data rfl

private theorem parseFields_of_faults {line : Nat} {fields : List (List Char)} {e : ScriptError}
    (h : Faults line fields e) : parseFields line fields = .error e := by
  cases h with
  | count h =>
      unfold parseFields
      split
      · exact absurd rfl h
      · rfl
  | delay h =>
      rw [parseFields, parseDelay_eq_error_iff.mpr ⟨h, rfl⟩]
      rfl
  | address hdelay h =>
      obtain ⟨cycles, hcycles⟩ := exists_parseDelay_eq_ok_iff.mpr hdelay
      rw [parseFields, hcycles, parseHex_eq_error_iff.mpr ⟨_, h, rfl⟩]
      rfl
  | data hdelay haddr h =>
      obtain ⟨cycles, hcycles⟩ := exists_parseDelay_eq_ok_iff.mpr hdelay
      obtain ⟨address, haddress⟩ := haddr
      rw [parseFields, hcycles, parseHex_eq_ok_iff.mpr haddress,
        parseHex_eq_error_iff.mpr ⟨_, h, rfl⟩]
      rfl
  | kind hdelay haddr hdata hwrite hread =>
      obtain ⟨cycles, hcycles⟩ := exists_parseDelay_eq_ok_iff.mpr hdelay
      obtain ⟨address, haddress⟩ := haddr
      obtain ⟨word, hword⟩ := hdata
      rw [parseFields, hcycles, parseHex_eq_ok_iff.mpr haddress, parseHex_eq_ok_iff.mpr hword]
      simp [bind, Except.bind, hwrite, hread]
      rfl

theorem parseFields_eq_error_iff {line : Nat} {fields : List (List Char)} {e : ScriptError} :
    parseFields line fields = .error e ↔ Faults line fields e :=
  ⟨faults_of_parseFields, parseFields_of_faults⟩

/-! ## Lines -/

theorem parse_eq_error_iff {line : Nat} {text : String} {e : ScriptError} :
    parse line text = .error e ↔ ¬ Skipped text ∧ ∃ core fields,
      Text.Trims text.toList core ∧ Separates core fields ∧ Faults line fields e := by
  have hfaults : (∃ core fields, Text.Trims text.toList core ∧ Separates core fields ∧
      Faults line fields e) ↔
        parseFields line ((fields (Text.trim text.toList)).map Text.trim) = .error e := by
    simp only [parseFields_eq_error_iff, ← Text.trim_eq_iff, ← map_trim_fields_eq_iff,
      exists_and_left, exists_eq_left']
  rw [hfaults]
  by_cases hskip : Skipped text
  · simp [hskip, parse_of_skipped]
  · rw [parse_of_not_skipped hskip]
    cases hfields : parseFields line ((fields (Text.trim text.toList)).map Text.trim) <;>
      simp [hskip, Except.map]

/-- A line that is not skipped and carries no command is refused for the first fault of its
trimmed fields.  White space around the line and around its fields makes no difference. -/
theorem parse_diagnoses (line : Nat) (text : String) :
    (∀ e, parse line text = .error e ↔ ¬ Skipped text ∧ ∃ core fields,
        Text.Trims text.toList core ∧ Separates core fields ∧ Faults line fields e) ∧
      (¬ Skipped text → (∀ c, ¬ Carries line text c) → ∃ e, parse line text = .error e) ∧
      (∀ count, (LineError.fieldCount count).message = s!"expected 4 fields, found {count}") ∧
      ∀ other, Relation.EqvGen Padded text other → parse line text = parse line other :=
  ⟨fun _ => parse_eq_error_iff,
    fun hskip hcarries => (parse_accepts_grammar line text).2.2.mpr ⟨hskip, hcarries⟩,
    fun _ => rfl, fun _ h => parse_of_respaced h line⟩

theorem parse_diagnoses_kind :
    ¬ Skipped "1,Q,2,3" ∧ (∀ c, ¬ Carries 7 "1,Q,2,3" c) ∧
      (∃ e, parse 7 "1,Q,2,3" = .error e) ∧
      (∃ core fields, Text.Trims "1,Q,2,3".toList core ∧ Separates core fields ∧
        Faults 7 fields (.unknownKind 7 "Q")) ∧
      Padded "1,Q,2,3" "1, Q,2,3" ∧ parse 7 "1, Q,2,3" = .error (.unknownKind 7 "Q") := by
  have herror : parse 7 "1,Q,2,3" = .error (.unknownKind 7 "Q") := by decide
  obtain ⟨hfaults, hrefused, -, hspaced⟩ := parse_diagnoses 7 "1,Q,2,3"
  obtain ⟨hskip, hkind⟩ := (hfaults _).mp herror
  have hcarries : ∀ c, ¬ Carries 7 "1,Q,2,3" c := by
    intro c hc
    have hparse := parse_eq_ok_some_iff.mpr hc
    rw [herror] at hparse
    cases hparse
  have hpadded : Padded "1,Q,2,3" "1, Q,2,3" :=
    ⟨['1', ','], [' '], ['Q', ',', '2', ',', '3'], .inr (.inl rfl),
      List.forall_mem_singleton.mpr rfl, rfl, rfl⟩
  exact ⟨hskip, hcarries, hrefused hskip hcarries, hkind, hpadded,
    (hspaced _ (.rel _ _ hpadded)).symm.trans herror⟩

end BankedStore.Line
