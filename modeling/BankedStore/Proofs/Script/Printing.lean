import BankedStore.Proofs.Script.Grammar
import BankedStore.Script.Writer

/-!
# Lines that are written

The line of a command is in the grammar of scripts and carries that command, and a
line of a comment is one that the grammar skips, whatever text the comment has.
-/

namespace BankedStore

open Text

/-! ## Commands -/

def Line.Plain (c : Char) : Prop :=
  isBlank c = false ∧ c ≠ ',' ∧ c ≠ '#'

private theorem plain_of_isDigit {base value : Nat} {c : Char} (hbase : base ≤ 16)
    (h : Numeral.IsDigit base c value) : Line.Plain c := by
  obtain ⟨hvalue, hc⟩ := h
  have hsmall : value < 16 := by omega
  clear hvalue
  interval_cases value <;> rcases hc with rfl | rfl <;> exact ⟨by decide, by decide, by decide⟩

private theorem plain_of_mem_toDigits {base n : Nat} (hone : 1 < base) (hbase : base ≤ 16)
    {c : Char} (hc : c ∈ Nat.toDigits base n) : Line.Plain c := by
  obtain ⟨d, hd⟩ := (Numeral.spells_toDigits hone n).exists_isDigit hc
  exact plain_of_isDigit hbase hd

private theorem mem_of_mem_intercalate {separator c : Char} {pieces : List (List Char)}
    (h : c ∈ [separator].intercalate pieces) : c = separator ∨ ∃ piece ∈ pieces, c ∈ piece := by
  induction pieces with
  | nil => simp [List.intercalate] at h
  | cons piece pieces ih =>
      cases pieces with
      | nil =>
          rw [List.intercalate_singleton] at h
          exact .inr ⟨piece, List.mem_cons_self, h⟩
      | cons next pieces =>
          rw [List.intercalate_cons_cons, List.mem_append, List.mem_append] at h
          rcases h with (h | h) | h
          · exact .inr ⟨piece, List.mem_cons_self, h⟩
          · exact .inl (List.mem_singleton.mp h)
          · rcases ih h with hc | ⟨found, hfound, hc⟩
            · exact .inl hc
            · exact .inr ⟨found, List.mem_cons_of_mem _ hfound, hc⟩

private theorem toList_kind (r : Request) :
    r.kind.toList = if r.isWrite then ['W'] else ['R'] := by
  cases r <;> simp [Request.kind, Request.isWrite]

def Command.fields (c : Command) : List (List Char) :=
  [Nat.toDigits 10 c.delay.toNat, c.request.kind.toList, Nat.toDigits 16 c.request.addr.toNat,
    Nat.toDigits 16 c.request.data.toNat]

namespace Command

theorem toList_text (c : Command) : c.text.toList = [','].intercalate c.fields := by
  simp [text, fields, Numeral.hex, List.intercalate]

theorem plain_of_mem_fields (c : Command) :
    ∀ field ∈ c.fields, ∀ letter ∈ field, Line.Plain letter := by
  have hkind : ∀ letter ∈ c.request.kind.toList, Line.Plain letter := by
    rw [toList_kind]
    cases c.request.isWrite <;> simp [Line.Plain, isBlank]
  simp only [fields, List.mem_cons, List.not_mem_nil, or_false, forall_eq_or_imp, forall_eq]
  exact ⟨fun _ => plain_of_mem_toDigits (by decide) (by decide), hkind,
    fun _ => plain_of_mem_toDigits (by decide) (by decide),
    fun _ => plain_of_mem_toDigits (by decide) (by decide)⟩

theorem mem_text {c : Command} {letter : Char} (h : letter ∈ c.text.toList) :
    letter = ',' ∨ ∃ field ∈ c.fields, letter ∈ field := by
  rw [toList_text] at h
  exact mem_of_mem_intercalate h

theorem not_blank_of_mem_text {c : Command} : ∀ letter ∈ c.text.toList, isBlank letter = false := by
  intro letter h
  rcases mem_text h with rfl | ⟨field, hfield, hletter⟩
  · decide
  · exact (c.plain_of_mem_fields field hfield letter hletter).1

theorem separates_text (c : Command) : Line.Separates c.text.toList c.fields := by
  refine ⟨c.fields, List.cons_ne_nil _ _, ?_, c.toList_text, ?_⟩
  · exact fun field hfield hcomma => (c.plain_of_mem_fields field hfield _ hcomma).2.1 rfl
  · rw [List.forall₂_same]
    intro field hfield
    have hplain := fun letter hletter => (c.plain_of_mem_fields field hfield letter hletter).1
    have htrims := trims_append hplain (List.forall_mem_nil _)
    rwa [List.append_nil] at htrims

theorem denotes_fields (line : Nat) (c : Command) :
    Line.DenotesCommand line c.fields { c with line := line } := by
  refine ⟨_, _, _, _, rfl, Numeral.denotes_toDigits (by decide) c.delay.toNat_lt,
    ⟨_, .inl rfl, Numeral.denotes_toDigits (by decide) c.request.addr.toNat_lt⟩,
    ⟨_, .inl rfl, Numeral.denotes_toDigits (by decide) c.request.data.toNat_lt⟩, rfl, ?_⟩
  rw [toList_kind]
  cases c.request with
  | write addr data => exact .inl ⟨rfl, rfl⟩
  | read addr expected => exact .inr ⟨rfl, rfl⟩

theorem trims_scriptLine (c : Command) : Trims c.scriptLine.toList c.text.toList := by
  rw [Command.scriptLine, String.toList_append]
  exact trims_append c.not_blank_of_mem_text (by simp [isBlank])

theorem not_skipped_scriptLine (c : Command) : ¬ Line.Skipped c.scriptLine := by
  rw [Line.skipped_iff, trim_of_trims c.trims_scriptLine]
  rintro (hnil | ⟨comment, hcomment⟩)
  · have hcomma : ',' ∈ c.text.toList := by
      simp [text]
    simp [hnil] at hcomma
  · rcases mem_text (hcomment ▸ List.mem_cons_self) with hletter | ⟨field, hfield, hletter⟩
    · exact absurd hletter (by decide)
    · exact (c.plain_of_mem_fields field hfield _ hletter).2.2 rfl

theorem carries_scriptLine (line : Nat) (c : Command) :
    Line.Carries line c.scriptLine { c with line := line } :=
  ⟨c.not_skipped_scriptLine, _, _, c.trims_scriptLine, c.separates_text, c.denotes_fields line⟩

theorem parse_scriptLine (line : Nat) (c : Command) :
    Line.parse line c.scriptLine = .ok (some { c with line := line }) :=
  Line.parse_eq_ok_some_iff.mpr (c.carries_scriptLine line)

theorem newline_not_mem_text (c : Command) : '\n' ∉ c.text.toList := by
  intro h
  have hblank := c.not_blank_of_mem_text _ h
  exact absurd hblank (by decide)

end Command

/-! ## Comments -/

theorem Line.parse_comment (line : Nat) (comment : List Char) :
    parse line (String.ofList ('#' :: comment)) = .ok none := by
  have htrims := trims_trim ('#' :: comment)
  refine parse_eq_ok_none_iff.mpr ⟨_, ?_, .inr (htrims.exists_eq_cons (by decide))⟩
  rwa [String.toList_ofList]

theorem newline_not_mem_textLines (text : List Char) : ∀ line ∈ textLines text, '\n' ∉ line := by
  fun_induction textLines text with
  | case1 => simp
  | case2 rest ih => simpa using ih
  | case3 rest ih => simpa using ih
  | case4 c rest hpair hnewline line more hlines ih =>
      simp only [hlines, List.mem_cons, forall_eq_or_imp, not_or] at ih ⊢
      exact ⟨⟨fun h => hnewline h.symm, ih.1⟩, ih.2⟩
  | case5 c rest hpair hnewline hlines ih => simpa using fun h => hnewline h.symm

end BankedStore
