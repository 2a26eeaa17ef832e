import BankedStore.Proofs.Script.Diagnosis
import BankedStore.Proofs.Text.Quoting

/-!
# What the message of a bad line shows

A message quotes what it takes from the script.  So whatever stands on a bad line,
its message holds no control and nothing else that would have to be escaped.  The
message about an unknown kind tells its line and the kind, and no other line or kind
has that message.
-/

namespace BankedStore

open Text

/-! ## Messages in one line -/

def messageWords : List String :=
  ["malformed request on line ", ": ", "expected 4 fields, found ", "invalid delay ", "invalid ",
    "address", "data", " ", Numeral.Error.empty.message, Numeral.Error.invalidDigit.message,
    Numeral.Error.tooLarge.message, "line ", ": request kind must be R or W, found "]

theorem clear_messageWords : ∀ words ∈ messageWords, Clear words.toList := by
  have hascii : (messageWords.all fun words => words.toList.all fun c =>
      decide (0x20 ≤ c.toNat ∧ c.toNat < 0x7f)) = true := by decide +kernel
  exact fun words hwords => clear_of_all (List.all_eq_true.mp hascii words hwords)

theorem Numeral.Error.clear_message (e : Numeral.Error) : Clear e.message.toList :=
  clear_messageWords _ (by cases e <;> simp [messageWords])

namespace LineError

theorem clear_fieldCount (found : Nat) : Clear (fieldCount found).message.toList := by
  have hwords := clear_messageWords "expected 4 fields, found " (by simp [messageWords])
  change Clear ("expected 4 fields, found " ++ toString found).toList
  exact clear_toList_append.mpr ⟨hwords, clear_toString found⟩

theorem clear_delay (field : String) : Clear (delay field).message.toList := by
  have hwords := clear_messageWords "invalid delay " (by simp [messageWords])
  change Clear ("invalid delay " ++ quote field).toList
  exact clear_toList_append.mpr ⟨hwords, clear_quote field⟩

theorem clear_number {what : String} (hwhat : what ∈ messageWords) (field : String)
    (cause : Numeral.Error) : Clear (number what field cause).message.toList := by
  have hinvalid := clear_messageWords "invalid " (by simp [messageWords])
  have hspace := clear_messageWords " " (by simp [messageWords])
  have hcolon := clear_messageWords ": " (by simp [messageWords])
  change Clear ("invalid " ++ what ++ " " ++ quote field ++ ": " ++ cause.message).toList
  simp only [clear_toList_append]
  exact ⟨⟨⟨⟨⟨hinvalid, clear_messageWords what hwhat⟩, hspace⟩, clear_quote field⟩, hcolon⟩,
    cause.clear_message⟩

end LineError

namespace ScriptError

theorem clear_malformed (line : Nat) {cause : LineError} (h : Clear cause.message.toList) :
    Clear (malformed line cause).message.toList := by
  have hwords := clear_messageWords "malformed request on line " (by simp [messageWords])
  have hcolon := clear_messageWords ": " (by simp [messageWords])
  change Clear ("malformed request on line " ++ toString line ++ ": " ++ cause.message).toList
  simp only [clear_toList_append]
  exact ⟨⟨⟨hwords, clear_toString line⟩, hcolon⟩, h⟩

theorem clear_unknownKind (line : Nat) (kind : String) :
    Clear (unknownKind line kind).message.toList := by
  have hline := clear_messageWords "line " (by simp [messageWords])
  have hwords := clear_messageWords ": request kind must be R or W, found " (by simp [messageWords])
  change Clear ("line " ++ toString line ++ ": request kind must be R or W, found " ++
    quote kind).toList
  simp only [clear_toList_append]
  exact ⟨⟨⟨hline, clear_toString line⟩, hwords⟩, clear_quote kind⟩

theorem clear_of_faults {line : Nat} {fields : List (List Char)} {e : ScriptError}
    (h : Line.Faults line fields e) : Clear e.message.toList := by
  cases h with
  | count _ => exact clear_malformed line (LineError.clear_fieldCount _)
  | delay _ => exact clear_malformed line (LineError.clear_delay _)
  | address _ _ =>
      exact clear_malformed line (LineError.clear_number (by simp [messageWords]) _ _)
  | data _ _ _ =>
      exact clear_malformed line (LineError.clear_number (by simp [messageWords]) _ _)
  | kind _ _ _ _ _ => exact clear_unknownKind line _

/-! ## The kind in a message -/

def unknownKind? (message : String) : Option (Nat × String) := do
  let text := message.toList.drop "line ".length
  let line ← Numeral.ofDigits? 10 (text.takeWhile (· ≠ ':'))
  let rest := (text.dropWhile (· ≠ ':')).drop ": request kind must be R or W, found ".length
  let kind ← unquote? (String.ofList rest)
  return (line, kind)

theorem toList_unknownKind (line : Nat) (kind : String) :
    (unknownKind line kind).message.toList =
      "line ".toList ++ (Nat.toDigits 10 line ++
        (": request kind must be R or W, found ".toList ++ (quote kind).toList)) := by
  change ("line " ++ toString line ++ ": request kind must be R or W, found " ++
    quote kind).toList = _
  simp only [String.toList_append, Nat.toString_eq_ofList_toDigits, String.toList_ofList,
    List.append_assoc]

theorem unknownKind?_message (line : Nat) (kind : String) :
    unknownKind? (unknownKind line kind).message = some (line, kind) := by
  have hcolon : Numeral.digit? 10 ':' = none := by decide
  have hline : Numeral.ofDigits? 10 (Nat.toDigits 10 line) = some line :=
    Numeral.ofDigits?_toDigits (by decide) (by decide) line
  have hwords : ": request kind must be R or W, found ".toList =
      ':' :: " request kind must be R or W, found ".toList := by decide +kernel
  have hlength : ∀ words : String, words.toList.length = words.length := fun _ =>
    String.length_toList
  have hends := Numeral.toDigits_ends (by decide) (by decide) hcolon line
    (" request kind must be R or W, found ".toList ++ (quote kind).toList)
  rw [← List.cons_append, ← hwords] at hends
  obtain ⟨hbefore, hafter⟩ := hends
  unfold unknownKind?
  dsimp only
  rw [toList_unknownKind, List.drop_left' (hlength _), hbefore, hafter, List.drop_left' (hlength _),
    hline, String.ofList_toList, unquote?_quote]
  rfl

theorem unknownKind_message_inj {line other : Nat} {kind otherKind : String}
    (h : (unknownKind line kind).message = (unknownKind other otherKind).message) :
    line = other ∧ kind = otherKind := by
  have hread := unknownKind?_message line kind
  rw [h, unknownKind?_message] at hread
  cases hread
  exact ⟨rfl, rfl⟩

/-- The text of a script stays inside the message that quotes it.  It neither ends the line of the
message nor hides a part of it, it reads back as it was, and where it is an unknown kind the message
tells it from all others. -/
theorem message_confined (line : Nat) :
    (∀ text e, Line.parse line text = .error e →
        (∀ c ∈ e.message.toList, ¬ IsControl c ∧ needsCodePoint c = false) ∧
          '\n' ∉ e.message.toList ∧ '\r' ∉ e.message.toList) ∧
      (∀ c, IsEscape c (escape c)) ∧
      (∀ field, unquote? (quote field) = some field) ∧
      (∀ kind, unknownKind? (unknownKind line kind).message = some (line, kind)) ∧
      ∀ kind other otherKind,
        (unknownKind line kind).message = (unknownKind other otherKind).message →
          line = other ∧ kind = otherKind := by
  refine ⟨fun text e herror => ?_, isEscape_escape, unquote?_quote, unknownKind?_message line,
    fun _ _ _ => unknownKind_message_inj⟩
  obtain ⟨-, -, fields, -, -, hfaults⟩ := Line.parse_eq_error_iff.mp herror
  have hclear := clear_of_faults hfaults
  exact ⟨fun c hc => ⟨hclear.not_isControl hc, hclear c hc⟩,
    fun hfeed => hclear.not_isControl hfeed (.inl (by decide)),
    fun hreturn => hclear.not_isControl hreturn (.inl (by decide))⟩

/-- A line feed and an override of the direction of writing, both inside the kind. -/
theorem message_confined_override :
    Line.parse 7 "1,Q\n\u202eR,2,3" = .error (.unknownKind 7 "Q\n\u202eR") ∧
      (unknownKind 7 "Q\n\u202eR").message =
        "line 7: request kind must be R or W, found \"Q\\n\\u\x7b202e\x7dR\"" ∧
      '\n' ∉ (unknownKind 7 "Q\n\u202eR").message.toList ∧
      ∀ other otherKind,
        "line 7: request kind must be R or W, found \"Q\\n\\u\x7b202e\x7dR\"" =
          (unknownKind other otherKind).message → 7 = other ∧ "Q\n\u202eR" = otherKind := by
  have hparse : Line.parse 7 "1,Q\n\u202eR,2,3" = .error (.unknownKind 7 "Q\n\u202eR") := by
    decide +kernel
  have hplain : needsCodePoint 'Q' = false ∧ needsCodePoint 'R' = false :=
    ⟨needsCodePoint_of_ascii (by decide) (by decide),
      needsCodePoint_of_ascii (by decide) (by decide)⟩
  have hlisted : needsCodePoint '\u202e' = true :=
    needsCodePoint_iff.mpr ⟨(0x2028, 0x202f), by decide +kernel, by decide⟩
  have hquote : quote "Q\n\u202eR" = "\"Q\\n\\u\x7b202e\x7dR\"" := by
    simp [quote, escape, hplain, hlisted]
    decide +kernel
  have hmessage : (unknownKind 7 "Q\n\u202eR").message =
      "line 7: request kind must be R or W, found \"Q\\n\\u\x7b202e\x7dR\"" := by
    change "line 7: request kind must be R or W, found " ++ quote _ = _
    rw [hquote]
    decide +kernel
  obtain ⟨hshown, -, -, -, hinj⟩ := message_confined 7
  rw [← hmessage]
  exact ⟨hparse, rfl, (hshown _ _ hparse).2.1, fun other otherKind => hinj _ other otherKind⟩

end ScriptError

end BankedStore
