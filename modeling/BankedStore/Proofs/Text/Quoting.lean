import BankedStore.Text.Quoted
import BankedStore.Proofs.Text.Numerals

/-!
# Quoted text

Every character has an escape of its own, and no escape is the start of another.  So
a quoted text reads back, whatever it holds, and shows by itself where it ends.  What
is left in it is safe to show: no character of it would have to be escaped.
-/

namespace BankedStore.Text

/-! ## Characters that show plainly -/

def IsControl (c : Char) : Prop :=
  c.toNat < 0x20 ∨ 0x7f ≤ c.toNat ∧ c.toNat < 0xa0

def escapedRanges : List (Nat × Nat) :=
  unprintableRanges.toList ++ combiningRanges.toList ++ ignorableRanges.toList

theorem needsCodePoint_iff {c : Char} :
    needsCodePoint c = true ↔ ∃ range ∈ escapedRanges, range.1 ≤ c.toNat ∧ c.toNat ≤ range.2 := by
  simp only [needsCodePoint, isUnprintable, isCombining, isIgnorable, ← Array.any_toList,
    ← List.any_append, List.any_eq_true, Bool.and_eq_true, decide_eq_true_eq, escapedRanges]

theorem needsCodePoint_of_isControl {c : Char} (h : IsControl c) : needsCodePoint c = true := by
  have hlow : (0x0, 0x1f) ∈ escapedRanges := by decide +kernel
  have hhigh : (0x7f, 0xa0) ∈ escapedRanges := by decide +kernel
  rw [needsCodePoint_iff]
  rcases h with h | ⟨hfrom, hto⟩
  · exact ⟨_, hlow, Nat.zero_le _, Nat.le_of_lt_succ h⟩
  · exact ⟨_, hhigh, hfrom, Nat.le_of_lt hto⟩

theorem needsCodePoint_of_ascii {c : Char} (hfrom : 0x20 ≤ c.toNat) (hto : c.toNat < 0x7f) :
    needsCodePoint c = false := by
  have hranges : ∀ range ∈ escapedRanges, range.2 < 0x20 ∨ 0x7f ≤ range.1 := by decide +kernel
  refine Bool.eq_false_iff.mpr fun h => ?_
  obtain ⟨range, hrange, hlow, hhigh⟩ := needsCodePoint_iff.mp h
  rcases hranges range hrange with hout | hout <;> omega

def Clear (text : List Char) : Prop :=
  ∀ c ∈ text, needsCodePoint c = false

theorem Clear.not_isControl {text : List Char} (h : Clear text) {c : Char} (hc : c ∈ text) :
    ¬ IsControl c := fun hcontrol => by
  have hclear := h c hc
  rw [needsCodePoint_of_isControl hcontrol] at hclear
  contradiction

@[simp] theorem clear_append {text more : List Char} :
    Clear (text ++ more) ↔ Clear text ∧ Clear more :=
  List.forall_mem_append

theorem clear_of_ascii {text : List Char}
    (h : ∀ c ∈ text, 0x20 ≤ c.toNat ∧ c.toNat < 0x7f) : Clear text :=
  fun c hc => needsCodePoint_of_ascii (h c hc).1 (h c hc).2

/-- The check of a fixed text goes along the text, and not over all characters there are. -/
theorem clear_of_all {text : List Char}
    (h : (text.all fun c => decide (0x20 ≤ c.toNat ∧ c.toNat < 0x7f)) = true) : Clear text :=
  clear_of_ascii fun c hc => of_decide_eq_true (List.all_eq_true.mp h c hc)

theorem clear_toDigits {base : Nat} (hone : 1 < base) (hbase : base ≤ 16) (n : Nat) :
    Clear (Nat.toDigits base n) := by
  refine clear_of_ascii fun c hc => ?_
  obtain ⟨d, hd, hletter⟩ := (Numeral.spells_toDigits hone n).exists_isDigit hc
  have hsmall : d < 16 := Nat.lt_of_lt_of_le hd hbase
  clear hd
  interval_cases d <;> rcases hletter with rfl | rfl <;> decide

theorem clear_toString (n : Nat) : Clear (toString n).toList := by
  rw [Nat.toString_eq_ofList_toDigits, String.toList_ofList]
  exact clear_toDigits (by decide) (by decide) n

@[simp] theorem clear_toList_append {s t : String} :
    Clear (s ++ t).toList ↔ Clear s.toList ∧ Clear t.toList := by
  rw [String.toList_append, clear_append]

/-! ## Escapes -/

def unescapeLetter (c : Char) : Char :=
  if c = '0' then '\x00'
  else if c = 't' then '\t'
  else if c = 'n' then '\n'
  else if c = 'r' then '\r'
  else c

inductive IsEscape : Char → List Char → Prop
  | letter {letter : Char} (h : letter ∈ ['0', 't', 'n', 'r', '"', '\\']) :
      IsEscape (unescapeLetter letter) ['\\', letter]
  | code {c : Char} (h : needsCodePoint c = true) :
      IsEscape c ('\\' :: 'u' :: '\x7b' :: Nat.toDigits 16 c.toNat ++ ['\x7d'])
  | plain {c : Char} (hslash : c ≠ '\\') (hquote : c ≠ '"') (h : needsCodePoint c = false) :
      IsEscape c [c]

theorem isEscape_escape (c : Char) : IsEscape c (escape c) := by
  have hletter : ∀ letter ∈ ['0', 't', 'n', 'r', '"', '\\'], c = unescapeLetter letter →
      IsEscape c ['\\', letter] := by
    rintro letter hmem rfl
    exact .letter hmem
  unfold escape
  split_ifs with hnul htab hfeed hreturn hquote hslash hcode
  · exact hletter '0' (by decide) hnul
  · exact hletter 't' (by decide) htab
  · exact hletter 'n' (by decide) hfeed
  · exact hletter 'r' (by decide) hreturn
  · exact hletter '"' (by decide) hquote
  · exact hletter '\\' (by decide) hslash
  · exact .code hcode
  · exact .plain hslash hquote (by simpa using hcode)

theorem IsEscape.clear {c : Char} {text : List Char} (h : IsEscape c text) : Clear text := by
  cases h with
  | @letter letter hmem =>
      have hletters : Clear ['0', 't', 'n', 'r', '"', '\\'] := clear_of_all (by decide)
      refine List.forall_mem_cons.mpr ⟨hletters '\\' (by decide), ?_⟩
      exact List.forall_mem_singleton.mpr (hletters letter hmem)
  | code _ =>
      have hopen : Clear ['\\', 'u', '\x7b'] := clear_of_all (by decide)
      have hclose : Clear ['\x7d'] := clear_of_all (by decide)
      have hdigits := clear_toDigits (by decide) le_rfl c.toNat
      exact clear_append.mpr ⟨clear_append.mpr ⟨hopen, hdigits⟩, hclose⟩
  | plain _ _ hplain => exact List.forall_mem_singleton.mpr hplain

theorem IsEscape.exists_eq_cons {c : Char} {text : List Char} (h : IsEscape c text) :
    ∃ first rest, text = first :: rest ∧ first ≠ '"' := by
  cases h with
  | letter _ => exact ⟨_, _, rfl, by decide⟩
  | code _ => exact ⟨_, _, rfl, by decide⟩
  | plain _ hquote _ => exact ⟨_, _, rfl, hquote⟩

theorem clear_quote (s : String) : Clear (quote s).toList := by
  have hbody : Clear (s.toList.flatMap escape) := by
    intro c hc
    obtain ⟨d, -, hd⟩ := List.mem_flatMap.mp hc
    exact (isEscape_escape d).clear c hd
  have hend : Clear ['"'] := clear_of_all (by decide)
  rw [quote, String.toList_ofList]
  exact clear_append.mpr ⟨clear_append.mpr ⟨hend, hbody⟩, hend⟩

/-! ## Reading back -/

def unescape? : List Char → Option (Char × List Char)
  | [] => none
  | '\\' :: 'u' :: text => do
      let code ← Numeral.ofDigits? 16 ((text.drop 1).takeWhile (· ≠ '\x7d'))
      return (Char.ofNat code, (text.dropWhile (· ≠ '\x7d')).drop 1)
  | '\\' :: letter :: text => some (unescapeLetter letter, text)
  | c :: text => some (c, text)

theorem IsEscape.unescape?_append {c : Char} {text : List Char} (h : IsEscape c text)
    (rest : List Char) : unescape? (text ++ rest) = some (c, rest) := by
  cases h with
  | @letter letter hmem =>
      have hu : letter ≠ 'u' := by
        rintro rfl
        revert hmem
        decide
      change unescape? ('\\' :: letter :: rest) = _
      rw [unescape?]
      exact fun h => hu h
  | code _ =>
      -- The code point ends at the brace whatever comes after, since a brace is no digit.
      have hbrace : Numeral.digit? 16 '\x7d' = none := by decide
      obtain ⟨hbefore, hafter⟩ :=
        Numeral.toDigits_ends (by decide) le_rfl hbrace c.toNat rest
      have hcode : Numeral.ofDigits? 16 (Nat.toDigits 16 c.toNat) = some c.toNat :=
        Numeral.ofDigits?_toDigits (by decide) le_rfl c.toNat
      have hopen : ('\x7b' :: (Nat.toDigits 16 c.toNat ++ '\x7d' :: rest)).dropWhile
          (· ≠ '\x7d') = '\x7d' :: rest := by
        rw [List.dropWhile_cons_of_pos (by decide), hafter]
      have htext : '\\' :: 'u' :: '\x7b' :: Nat.toDigits 16 c.toNat ++ ['\x7d'] ++ rest =
          '\\' :: 'u' :: '\x7b' :: (Nat.toDigits 16 c.toNat ++ '\x7d' :: rest) := by simp
      rw [htext, unescape?, hopen]
      change (Numeral.ofDigits? 16 ((Nat.toDigits 16 c.toNat ++ '\x7d' :: rest).takeWhile
        (· ≠ '\x7d')) >>= _) = _
      rw [hbefore, hcode]
      exact congrArg (fun d => some (d, rest)) (Char.ofNat_toNat c)
  | plain hslash _ _ =>
      change unescape? (c :: rest) = _
      rw [unescape?]
      · exact fun _ h _ => hslash h
      · exact fun _ _ h _ => hslash h

theorem length_unescape?_lt {text rest : List Char} {c : Char}
    (h : unescape? text = some (c, rest)) : rest.length < text.length := by
  unfold unescape? at h
  split at h
  · contradiction
  · rename_i text
    have hdrop := (text.dropWhile_suffix (· ≠ '\x7d')).length_le
    obtain ⟨code, -, hrest⟩ := Option.bind_eq_some_iff.mp h
    cases hrest
    simp only [List.length_drop, List.length_cons]
    omega
  · cases h
    simp only [List.length_cons]
    omega
  · cases h
    exact Nat.lt_succ_self _

def readQuoted (text : List Char) : Option (List Char × List Char) :=
  match text with
  | '"' :: rest => some ([], rest)
  | text =>
      match h : unescape? text with
      | none => none
      | some (c, rest) =>
          have := length_unescape?_lt h
          (readQuoted rest).map fun (more, after) => (c :: more, after)
  termination_by text.length

theorem readQuoted_of_unescape? {text rest : List Char} {c : Char}
    (hquote : ∀ more, text ≠ '"' :: more) (h : unescape? text = some (c, rest)) :
    readQuoted text = (readQuoted rest).map fun (more, after) => (c :: more, after) := by
  rw [readQuoted]
  · split
    · simp_all
    · rename_i hfound
      rw [h] at hfound
      cases hfound
      rfl
  · exact hquote

theorem readQuoted_append (s rest : List Char) :
    readQuoted (s.flatMap escape ++ '"' :: rest) = some (s, rest) := by
  induction s with
  | nil => rw [List.flatMap_nil, List.nil_append, readQuoted]
  | cons c s ih =>
      obtain ⟨first, more, hfirst, hquote⟩ := (isEscape_escape c).exists_eq_cons
      rw [List.flatMap_cons, List.append_assoc,
        readQuoted_of_unescape? ?_ ((isEscape_escape c).unescape?_append _), ih]
      · rfl
      · rw [hfirst]
        exact fun _ h => hquote (List.cons.inj h).1

def unquote? (s : String) : Option String :=
  match s.toList with
  | '"' :: text => ((readQuoted text).filter (·.2 = [])).map fun read => String.ofList read.1
  | _ => none

theorem unquote?_quote (s : String) : unquote? (quote s) = some s := by
  have hread := readQuoted_append s.toList []
  simp [unquote?, quote, hread]

end BankedStore.Text
