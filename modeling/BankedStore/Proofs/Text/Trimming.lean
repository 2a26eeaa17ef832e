import Mathlib.Data.List.DropRight
import BankedStore.Text.Blank

/-!
# Trimmed text

Trimming takes the blanks off both ends of a text and leaves the rest as it is.
What is left is the one part of the text that has only blanks before and after it
and none at its own ends.
-/

namespace BankedStore.Text

structure Trims (text core : List Char) : Prop where
  around : ∃ before after, text = before ++ core ++ after ∧
    (∀ c ∈ before, isBlank c = true) ∧ ∀ c ∈ after, isBlank c = true
  head : ∀ c ∈ core.head?, isBlank c = false
  last : ∀ c ∈ core.getLast?, isBlank c = false

theorem trimRight_eq_rdropWhile (cs : List Char) : trimRight cs = cs.rdropWhile isBlank :=
  rfl

private theorem trimLeft_append {before : List Char} (h : ∀ c ∈ before, isBlank c = true)
    (cs : List Char) : trimLeft (before ++ cs) = trimLeft cs := by
  rw [trimLeft, trimLeft, List.dropWhile_append_of_pos h]

private theorem trimRight_append {after : List Char} (h : ∀ c ∈ after, isBlank c = true)
    (cs : List Char) : trimRight (cs ++ after) = trimRight cs := by
  rw [trimRight, trimRight, List.reverse_append,
    List.dropWhile_append_of_pos (by simpa using h)]

theorem trim_of_trims {text core : List Char} (h : Trims text core) : trim text = core := by
  obtain ⟨before, after, rfl, hbefore, hafter⟩ := h.around
  have hlast : trimRight core = core := by
    rw [trimRight_eq_rdropWhile, List.rdropWhile_eq_self_iff]
    intro hne
    simpa using h.last _ (List.getLast?_eq_some_getLast hne)
  rw [trim, List.append_assoc, trimLeft_append hbefore]
  cases core with
  | nil =>
      have hblank := trimLeft_append hafter []
      rw [List.append_nil] at hblank
      rw [List.nil_append, hblank]
      rfl
  | cons c core =>
      have hc : isBlank c = false := h.head c rfl
      have hkeep : trimLeft (c :: core ++ after) = c :: core ++ after :=
        List.dropWhile_cons_of_neg (by simp [hc])
      rw [hkeep, trimRight_append hafter, hlast]

theorem trims_trim (text : List Char) : Trims text (trim text) := by
  have hleft : text.takeWhile isBlank ++ trimLeft text = text := List.takeWhile_append_dropWhile
  have hright : trim text ++ (trimLeft text).rtakeWhile isBlank = trimLeft text :=
    List.rdropWhile_append_rtakeWhile
  refine ⟨⟨text.takeWhile isBlank, (trimLeft text).rtakeWhile isBlank, ?_,
    fun c => List.mem_takeWhile_imp, fun c => List.mem_rtakeWhile_imp⟩, ?_, ?_⟩
  · rw [List.append_assoc, hright, hleft]
  · intro c hc
    -- The first character of the core is the one that stopped the trimming on the left.
    have hfirst := List.head?_dropWhile_not isBlank text
    rw [← trimLeft, ← hright, List.head?_append, hc] at hfirst
    exact hfirst
  · intro c hc
    have hne : trim text ≠ [] := fun h => by simp [h] at hc
    rw [List.getLast?_eq_some_getLast hne, Option.mem_some_iff] at hc
    subst hc
    exact Bool.eq_false_iff.mpr (List.rdropWhile_last_not isBlank (trimLeft text) hne)

theorem trim_eq_iff {text core : List Char} : trim text = core ↔ Trims text core :=
  ⟨fun h => h ▸ trims_trim text, trim_of_trims⟩

theorem trims_append {core after : List Char} (hcore : ∀ c ∈ core, isBlank c = false)
    (hafter : ∀ c ∈ after, isBlank c = true) : Trims (core ++ after) core where
  around := ⟨[], after, rfl, by simp, hafter⟩
  head c hc := hcore c (List.mem_of_mem_head? hc)
  last c hc := hcore c (List.mem_of_getLast? hc)

theorem Trims.exists_eq_cons {c : Char} {cs core : List Char} (h : Trims (c :: cs) core)
    (hc : isBlank c = false) : ∃ rest, core = c :: rest := by
  obtain ⟨before, after, htext, hbefore, hafter⟩ := h.around
  cases before with
  | cons b before =>
      have hb : c = b := (List.cons.inj htext).1
      have hblank := hbefore b List.mem_cons_self
      rw [← hb, hc] at hblank
      cases hblank
  | nil =>
      cases core with
      | cons d core => exact ⟨core, by rw [(List.cons.inj htext).1]⟩
      | nil =>
          have hall : c :: cs = after := htext
          have hblank := hafter c (hall ▸ List.mem_cons_self)
          rw [hc] at hblank
          cases hblank

/-! ## Blanks around a text -/

theorem trim_blank_append {blanks : List Char} (h : ∀ c ∈ blanks, isBlank c = true)
    (text : List Char) : trim (blanks ++ text) = trim text := by
  have htext := trims_trim text
  obtain ⟨before, after, heq, hbefore, hafter⟩ := htext.around
  refine trim_of_trims ⟨⟨blanks ++ before, after, ?_, ?_, hafter⟩, htext.head, htext.last⟩
  · rw [List.append_assoc, List.append_assoc, ← List.append_assoc before, ← heq]
  · exact List.forall_mem_append.mpr ⟨h, hbefore⟩

theorem trim_append_blank (text : List Char) {blanks : List Char}
    (h : ∀ c ∈ blanks, isBlank c = true) : trim (text ++ blanks) = trim text := by
  have htext := trims_trim text
  obtain ⟨before, after, heq, hbefore, hafter⟩ := htext.around
  refine trim_of_trims ⟨⟨before, after ++ blanks, ?_, hbefore, ?_⟩, htext.head, htext.last⟩
  · rw [← List.append_assoc, ← heq]
  · exact List.forall_mem_append.mpr ⟨hafter, h⟩

theorem find?_of_blank {cs : List Char} (h : ∀ c ∈ cs, isBlank c = true) :
    cs.find? (!isBlank ·) = none := by
  simpa using h

theorem Trims.find?_eq {text core : List Char} (h : Trims text core) :
    text.find? (!isBlank ·) = core.head? := by
  obtain ⟨before, after, rfl, hbefore, hafter⟩ := h.around
  rw [List.find?_append, List.find?_append, find?_of_blank hbefore, find?_of_blank hafter]
  cases core with
  | nil => rfl
  | cons c core => simp [h.head c rfl]

end BankedStore.Text
