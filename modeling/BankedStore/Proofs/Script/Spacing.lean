import Mathlib.Logic.Relation
import BankedStore.Proofs.Script.Grammar

/-!
# White space around lines and fields

Blanks at an end of a line or next to a comma do not count.  They are no part of a
trimmed field, and a line is skipped for its first character that is not blank, so
lines that differ in such blanks only are read alike, down to the texts of errors.
-/

namespace BankedStore.Line

/-! ## Fields -/

theorem fields_ne_nil (text : List Char) : fields text ≠ [] :=
  (fields_eq_iff.mp (rfl : fields text = fields text)).1

theorem exists_fields_cons {c : Char} (hc : c ≠ ',') (text : List Char) :
    ∃ field more, fields text = field :: more ∧ fields (c :: text) = (c :: field) :: more := by
  obtain ⟨field, more, hfields⟩ := List.exists_cons_of_ne_nil (fields_ne_nil text)
  refine ⟨field, more, hfields, ?_⟩
  rw [fields, hfields]
  exact hc

theorem fields_append {left right last first : List Char} {front back : List (List Char)}
    (hleft : fields left = front ++ [last]) (hright : fields right = first :: back) :
    fields (left ++ right) = front ++ (last ++ first) :: back := by
  -- On the left text.  Its first character is a field's end or is put before the first field of
  -- the rest, which can be the last one too and then goes on into the right text.
  induction left generalizing front last with
  | nil =>
      cases front with
      | nil =>
          cases hleft
          exact hright
      | cons field front => simp [fields] at hleft
  | cons c left ih =>
      by_cases hc : c = ','
      · subst hc
        have hleft : [] :: fields left = front ++ [last] := hleft
        cases front with
        | nil => exact absurd (List.cons.inj hleft).2 (fields_ne_nil left)
        | cons field front =>
            obtain ⟨rfl, hrest⟩ := List.cons.inj hleft
            exact congrArg ([] :: ·) (ih hrest)
      · obtain ⟨field, more, hfields, hcons⟩ := exists_fields_cons hc left
        obtain ⟨field', more', hfields', hcons'⟩ := exists_fields_cons hc (left ++ right)
        rw [hcons] at hleft
        rw [List.cons_append, hcons']
        cases front with
        | nil =>
            obtain ⟨rfl, rfl⟩ := List.cons.inj hleft
            have hrest : fields (left ++ right) = [] ++ (field ++ first) :: back := ih hfields
            rw [hfields'] at hrest
            cases hrest
            rfl
        | cons _ front =>
            obtain ⟨rfl, rfl⟩ := List.cons.inj hleft
            have hrest : fields (left ++ right) = (field :: front) ++ (last ++ first) :: back :=
              ih hfields
            rw [hfields'] at hrest
            cases hrest
            rfl

theorem fields_of_blank {blanks : List Char} (h : ∀ c ∈ blanks, Text.isBlank c = true) :
    fields blanks = [blanks] := by
  refine fields_eq_iff.mpr ⟨by simp, ?_, by simp [List.intercalate]⟩
  intro piece hpiece hcomma
  rw [List.mem_singleton.mp hpiece] at hcomma
  exact absurd (h ',' hcomma) (by decide)

/-! ## Edges of fields -/

/-- These parts of a line meet at an end of it or next to a comma. -/
def Edge (left right : List Char) : Prop :=
  left = [] ∨ left.getLast? = some ',' ∨ right = [] ∨ right.head? = some ','

theorem Edge.eq_nil {left right last first : List Char} {front back : List (List Char)}
    (h : Edge left right) (hleft : fields left = front ++ [last])
    (hright : fields right = first :: back) : last = [] ∨ first = [] := by
  rcases h with rfl | hcomma | rfl | hcomma
  · left
    simpa [fields] using congrArg List.getLast? hleft.symm
  · left
    obtain ⟨rest, rfl⟩ := List.getLast?_eq_some_iff.mp hcomma
    have hrest := fields_append (List.dropLast_append_getLast (fields_ne_nil rest)).symm
      (show fields [','] = [] :: [[]] from rfl)
    rw [hleft] at hrest
    simpa using congrArg List.getLast? hrest
  · right
    cases hright
    rfl
  · right
    obtain ⟨rest, rfl⟩ := List.head?_eq_some_iff.mp hcomma
    cases hright
    rfl

/-- Blanks at an edge are in no trimmed field. -/
theorem map_trim_fields_edge {left right blanks : List Char} (h : Edge left right)
    (hblanks : ∀ c ∈ blanks, Text.isBlank c = true) :
    (fields (left ++ blanks ++ right)).map Text.trim =
      (fields (left ++ right)).map Text.trim := by
  have hleft := (List.dropLast_append_getLast (fields_ne_nil left)).symm
  obtain ⟨first, back, hright⟩ := List.exists_cons_of_ne_nil (fields_ne_nil right)
  have hpadded := fields_append hleft (fields_of_blank hblanks)
  rw [fields_append hpadded hright, fields_append hleft hright, List.map_append, List.map_append,
    List.map_cons, List.map_cons]
  congr 2
  rcases h.eq_nil hleft hright with hlast | hfirst
  · rw [hlast]
    exact Text.trim_blank_append hblanks first
  · rw [hfirst, List.append_nil, List.append_nil]
    exact Text.trim_append_blank _ hblanks

theorem map_trim_fields_trim (text : List Char) :
    (fields (Text.trim text)).map Text.trim = (fields text).map Text.trim := by
  obtain ⟨before, after, htext, hbefore, hafter⟩ := (Text.trims_trim text).around
  have hstart : Edge [] (Text.trim text ++ after) := .inl rfl
  have hend : Edge (Text.trim text) [] := .inr (.inr (.inl rfl))
  have hpadded := map_trim_fields_edge hstart hbefore
  have hcore := map_trim_fields_edge hend hafter
  rw [List.nil_append, List.nil_append, ← List.append_assoc, ← htext] at hpadded
  rw [List.append_nil, List.append_nil] at hcore
  rw [hpadded, hcore]

/-! ## Lines -/

def Padded (text other : String) : Prop :=
  ∃ left blanks right, Edge left right ∧ (∀ c ∈ blanks, Text.isBlank c = true) ∧
    text.toList = left ++ right ∧ other.toList = left ++ blanks ++ right

theorem skipped_iff_find? {text : String} :
    Skipped text ↔ ∀ c ∈ text.toList.find? (!Text.isBlank ·), c = '#' := by
  rw [skipped_iff, (Text.trims_trim text.toList).find?_eq]
  cases Text.trim text.toList <;> simp

theorem Padded.skipped_iff {text other : String} (h : Padded text other) :
    Skipped other ↔ Skipped text := by
  obtain ⟨left, blanks, right, -, hblanks, htext, hother⟩ := h
  rw [skipped_iff_find?, skipped_iff_find?, htext, hother, List.find?_append, List.find?_append,
    List.find?_append, Text.find?_of_blank hblanks, Option.or_none]

theorem parse_of_padded {text other : String} (h : Padded text other) (line : Nat) :
    parse line other = parse line text := by
  by_cases hskip : Skipped text
  · rw [parse_of_skipped hskip, parse_of_skipped (h.skipped_iff.mpr hskip)]
  · have hskip' : ¬ Skipped other := fun hother => hskip (h.skipped_iff.mp hother)
    obtain ⟨left, blanks, right, hedge, hblanks, htext, hother⟩ := h
    rw [parse_of_not_skipped hskip, parse_of_not_skipped hskip', map_trim_fields_trim,
      map_trim_fields_trim, htext, hother, map_trim_fields_edge hedge hblanks]

theorem parse_of_respaced {text other : String} (h : Relation.EqvGen Padded text other)
    (line : Nat) : parse line text = parse line other := by
  induction h with
  | rel text other h => exact (parse_of_padded h line).symm
  | refl text => rfl
  | symm text other _ ih => exact ih.symm
  | trans text middle other _ _ ih ih' => exact ih.trans ih'

end BankedStore.Line
