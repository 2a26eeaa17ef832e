import BankedStore.Proofs.Text.Utf8
import BankedStore.Script.Reader

/-!
# Reading line by line

What a reader does with a line depends on the text of that line and its number
alone: it yields the command on it, passes the line over, or reports an error, and
goes on with the bytes after the line feed.
-/

namespace BankedStore

theorem cutLine_append {line : List UInt8} (h : 10 ∉ line) (rest : List UInt8) :
    cutLine (line ++ 10 :: rest) = (line ++ [10], rest) := by
  induction line with
  | nil => simp [cutLine]
  | cons byte line ih =>
      rw [List.mem_cons, not_or] at h
      rw [List.cons_append, cutLine, if_neg (fun hbyte => h.1 hbyte.symm), ih h.2]
      rfl

theorem utf8_line (text : String) : utf8 (text ++ "\n") = utf8 text ++ [10] := by
  rw [utf8_eq_flatMap, utf8_eq_flatMap, String.toList_append, List.flatMap_append]
  rfl

theorem cutLine_utf8 {text : String} (h : '\n' ∉ text.toList) (rest : List UInt8) :
    cutLine (utf8 (text ++ "\n") ++ rest) = (utf8 (text ++ "\n"), rest) := by
  have hbytes : 10 ∉ utf8 text := by
    rw [← List.count_eq_zero, count_utf8, List.count_eq_zero]
    exact h
  rw [utf8_line, List.append_assoc]
  exact cutLine_append hbytes rest

namespace Reader

theorem next_of_text {r : Reader} {text : String} (hrest : r.rest ≠ [])
    (htext : String.fromUTF8? (cutLine r.rest).1.toByteArray = some text) :
    r.next =
      match Line.parse (r.lines + 1) text with
      | .error e => (.error e, ⟨(cutLine r.rest).2, r.lines + 1, r.commandsRead⟩)
      | .ok (some command) =>
          (.ok (some command), ⟨(cutLine r.rest).2, r.lines + 1, r.commandsRead + 1⟩)
      | .ok none => next ⟨(cutLine r.rest).2, r.lines + 1, r.commandsRead⟩ := by
  rw [next, dif_neg hrest]
  rcases hparse : Line.parse (r.lines + 1) text with e | _ | command <;> simp only [htext, hparse]

theorem next_of_not_text {r : Reader} (hrest : r.rest ≠ [])
    (htext : String.fromUTF8? (cutLine r.rest).1.toByteArray = none) :
    r.next = (.error (.io .invalidUtf8), { r with rest := (cutLine r.rest).2 }) := by
  rw [next, dif_neg hrest]
  simp only [htext]

theorem next_line {text : String} (h : '\n' ∉ text.toList) (rest : List UInt8) (lines read : Nat) :
    next ⟨utf8 (text ++ "\n") ++ rest, lines, read⟩ =
      match Line.parse (lines + 1) (text ++ "\n") with
      | .error e => (.error e, ⟨rest, lines + 1, read⟩)
      | .ok (some command) => (.ok (some command), ⟨rest, lines + 1, read + 1⟩)
      | .ok none => next ⟨rest, lines + 1, read⟩ := by
  have hne : utf8 (text ++ "\n") ++ rest ≠ [] := by
    simp [utf8_line]
  have htext : String.fromUTF8? (cutLine (utf8 (text ++ "\n") ++ rest)).1.toByteArray =
      some (text ++ "\n") := by
    rw [cutLine_utf8 h, fromUTF8?_utf8]
  rw [next_of_text hne htext]
  simp only [cutLine_utf8 h]

end Reader

namespace CommandStream

theorem toList_of_next?_eq_some {s rest : CommandStream} {item : Except ScriptError Command}
    (h : s.next? = (some item, rest)) : s.toList = (item :: rest.toList.1, rest.toList.2) := by
  rw [toList]
  split
  · rename_i hnext
    rw [h] at hnext
    cases hnext
    rfl
  · rename_i hnext
    rw [h] at hnext
    cases hnext

theorem toList_of_next?_eq_none {s rest : CommandStream} (h : s.next? = (none, rest)) :
    s.toList = ([], rest) := by
  rw [toList]
  split
  · rename_i hnext
    rw [h] at hnext
    cases hnext
  · rename_i hnext
    rw [h] at hnext
    cases hnext
    rfl

theorem toList_congr {s s' : CommandStream} (h : s.next? = s'.next?) : s.toList = s'.toList := by
  rcases hnext : s'.next? with ⟨_ | item, rest⟩
  · rw [toList_of_next?_eq_none (h.trans hnext), toList_of_next?_eq_none hnext]
  · rw [toList_of_next?_eq_some (h.trans hnext), toList_of_next?_eq_some hnext]

variable {text : String} {rest : List UInt8} {lines read : Nat}

theorem toList_command {command : Command} (h : '\n' ∉ text.toList)
    (hparse : Line.parse (lines + 1) (text ++ "\n") = .ok (some command)) :
    toList ⟨⟨utf8 (text ++ "\n") ++ rest, lines, read⟩, false⟩ =
      (.ok command :: (toList ⟨⟨rest, lines + 1, read + 1⟩, false⟩).1,
        (toList ⟨⟨rest, lines + 1, read + 1⟩, false⟩).2) := by
  apply toList_of_next?_eq_some
  simp [next?, Reader.next_line h, hparse]

theorem toList_skipped (h : '\n' ∉ text.toList)
    (hparse : Line.parse (lines + 1) (text ++ "\n") = .ok none) :
    toList ⟨⟨utf8 (text ++ "\n") ++ rest, lines, read⟩, false⟩ =
      toList ⟨⟨rest, lines + 1, read⟩, false⟩ := by
  apply toList_congr
  simp [next?, Reader.next_line h, hparse]

theorem toList_end : toList ⟨⟨[], lines, read⟩, false⟩ = ([], ⟨⟨[], lines, read⟩, true⟩) := by
  apply toList_of_next?_eq_none
  simp [next?, Reader.next_of_rest_eq_nil]

end CommandStream

end BankedStore
