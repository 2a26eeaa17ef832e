import Mathlib.Data.List.SplitBy
import BankedStore.Proofs.Script.Grammar
import BankedStore.Proofs.Script.Reading

/-!
# The transcript of a script

Any bytes can be read as a script.  They are cut after each line feed, and the
transcript lists what the pieces come to, one after the other: the command of a
line, what is wrong with it, or that the piece is no text at all.  Up to the first
error every piece is a line, so the commands before it have the line numbers of
their pieces.
-/

namespace BankedStore

namespace Script

abbrev Outcome := Except ScriptError Command

/-- The bytes cut after each line feed. -/
def pieces (bytes : List UInt8) : List (List UInt8) :=
  bytes.splitBy fun byte _ => byte != 10

def text? (piece : List UInt8) : Option String :=
  String.fromUTF8? piece.toByteArray

/-- Only pieces that are text count as lines. -/
def lineCount (ps : List (List UInt8)) : Nat :=
  ps.countP fun piece => (text? piece).isSome

/-- What a piece comes to when it has this line number; nothing where it carries no command. -/
def outcome? (line : Nat) (piece : List UInt8) : Option Outcome :=
  match text? piece with
  | none => some (.error (.io .invalidUtf8))
  | some text =>
      match Line.parse line text with
      | .error e => some (.error e)
      | .ok none => none
      | .ok (some command) => some (.ok command)

def entryOf (ps : List (List UInt8)) (numbered : List UInt8 × Nat) : Option (Nat × Outcome) :=
  (outcome? (lineCount (ps.take (numbered.2 + 1))) numbered.1).map (numbered.2 + 1, ·)

def transcript (bytes : List UInt8) : List (Nat × Outcome) :=
  (pieces bytes).zipIdx.filterMap (entryOf (pieces bytes))

def outcomes (bytes : List UInt8) : List Outcome :=
  (transcript bytes).map Prod.snd

/-- What the call with this number gives of the entries of some pieces, and the reader after it.
Past the entries nothing is left. -/
def answer (ps : List (List UInt8)) (es : List (Nat × Outcome)) (commandsRead number : Nat) :
    Except ScriptError (Option Command) × Reader :=
  match es[number]? with
  | some (consumed, outcome) =>
      (outcome.map some, ⟨(ps.drop consumed).flatten, lineCount (ps.take consumed),
        commandsRead + (es.take (number + 1)).countP (·.2.isOk)⟩)
  | none => (.ok none, ⟨[], lineCount ps, commandsRead + es.countP (·.2.isOk)⟩)

def untilError {ε α : Type} : List (Except ε α) → List (Except ε α)
  | [] => []
  | .ok a :: rest => .ok a :: untilError rest
  | .error e :: _ => [.error e]

/-! ## Pieces -/

theorem flatten_pieces (bytes : List UInt8) : (pieces bytes).flatten = bytes :=
  List.flatten_splitBy _ _

@[simp] theorem pieces_nil : pieces [] = [] := rfl

private theorem isChain_of_not_mem {line : List UInt8} (h : 10 ∉ line) (last : List UInt8)
    (hlast : last.length ≤ 1) :
    (line ++ last).IsChain fun byte _ => (byte != 10) = true := by
  induction line with
  | nil =>
      match last, hlast with
      | [], _ => exact .nil
      | [byte], _ => exact .singleton byte
  | cons byte line ih =>
      rw [List.mem_cons, not_or] at h
      rw [List.cons_append, List.isChain_cons]
      exact ⟨fun _ _ => bne_iff_ne.mpr fun heq => h.1 heq.symm, ih h.2⟩

theorem pieces_of_not_mem {line : List UInt8} (h : 10 ∉ line) (hne : line ≠ []) :
    pieces line = [line] := by
  have hchain := isChain_of_not_mem h [] (by simp)
  rw [List.append_nil] at hchain
  exact List.splitBy_of_isChain hne hchain

theorem pieces_line {line : List UInt8} (h : 10 ∉ line) (rest : List UInt8) :
    pieces (line ++ 10 :: rest) = (line ++ [10]) :: pieces rest := by
  have hchain := isChain_of_not_mem h [10] (by simp)
  have hsplit : line ++ 10 :: rest = (line ++ [10]) ++ rest := by simp
  rw [pieces, hsplit, List.splitBy_append (by simp), List.splitBy_of_isChain (by simp) hchain]
  rfl

theorem cutLine_of_not_mem {line : List UInt8} (h : 10 ∉ line) : cutLine line = (line, []) := by
  induction line with
  | nil => rfl
  | cons byte line ih =>
      rw [List.mem_cons, not_or] at h
      rw [cutLine, if_neg fun hbyte => h.1 hbyte.symm, ih h.2]

theorem pieces_eq_cons {bytes : List UInt8} (hne : bytes ≠ []) :
    pieces bytes = (cutLine bytes).1 :: pieces (cutLine bytes).2 := by
  by_cases h : 10 ∈ bytes
  · obtain ⟨line, rest, rfl, hline⟩ := List.eq_append_cons_of_mem h
    rw [pieces_line hline, cutLine_append hline]
  · rw [pieces_of_not_mem h hne, cutLine_of_not_mem h, pieces_nil]

/-! ## The rest of a transcript -/

def entries (done left : List (List UInt8)) : List (Nat × Outcome) :=
  (left.zipIdx done.length).filterMap (entryOf (done ++ left))

theorem transcript_eq_entries (bytes : List UInt8) : transcript bytes = entries [] (pieces bytes) :=
  rfl

@[simp] theorem entries_nil (done : List (List UInt8)) : entries done [] = [] := rfl

theorem entries_cons (done : List (List UInt8)) (piece : List UInt8) (left : List (List UInt8)) :
    entries done (piece :: left) =
      match outcome? (lineCount (done ++ [piece])) piece with
      | none => entries (done ++ [piece]) left
      | some outcome => (done.length + 1, outcome) :: entries (done ++ [piece]) left := by
  have hdone : done ++ piece :: left = (done ++ [piece]) ++ left := by simp
  have htake : ((done ++ [piece]) ++ left).take (done.length + 1) = done ++ [piece] := by
    rw [List.take_append_of_le_length (by simp), List.take_of_length_le (by simp)]
  have hentry : entryOf ((done ++ [piece]) ++ left) (piece, done.length) =
      (outcome? (lineCount (done ++ [piece])) piece).map (done.length + 1, ·) := by
    rw [entryOf, htake]
  rw [entries, hdone, List.zipIdx_cons, List.filterMap_cons, hentry]
  cases outcome? (lineCount (done ++ [piece])) piece with
  | none => simp [entries]
  | some outcome => simp [entries]

theorem lineCount_append_singleton (done : List (List UInt8)) (piece : List UInt8) :
    lineCount (done ++ [piece]) = lineCount done + if (text? piece).isSome then 1 else 0 := by
  rw [lineCount, List.countP_append, List.countP_singleton]
  rfl

/-! ## Line numbers -/

theorem lt_of_mem_entries {done left : List (List UInt8)} {entry : Nat × Outcome}
    (h : entry ∈ entries done left) : done.length < entry.1 := by
  induction left generalizing done with
  | nil => simp at h
  | cons piece left ih =>
      have htail (h : entry ∈ entries (done ++ [piece]) left) : done.length < entry.1 := by
        have := ih h
        rw [List.length_append] at this
        omega
      rw [entries_cons] at h
      split at h
      · exact htail h
      · rcases List.mem_cons.mp h with rfl | h
        · exact Nat.lt_succ_self _
        · exact htail h

theorem pairwise_entries (done left : List (List UInt8)) :
    (entries done left).Pairwise (·.1 < ·.1) := by
  induction left generalizing done with
  | nil => exact .nil
  | cons piece left ih =>
      rw [entries_cons]
      cases outcome? (lineCount (done ++ [piece])) piece with
      | none => exact ih _
      | some outcome =>
          refine .cons (fun entry hentry => ?_) (ih _)
          simpa using lt_of_mem_entries hentry

theorem line_of_outcome? {line : Nat} {piece : List UInt8} {c : Command}
    (h : outcome? line piece = some (.ok c)) : c.line = line := by
  unfold outcome? at h
  split at h
  · simp at h
  · split at h
    · simp at h
    · simp at h
    · rename_i hparse
      obtain ⟨_, _, _, _, _, _, _, _, _, _, _, hline, _⟩ := Line.parse_eq_ok_some_iff.mp hparse
      simp_all

theorem lineCount_append_of_text? {done : List (List UInt8)} {piece : List UInt8} {text : String}
    (hdone : lineCount done = done.length) (h : text? piece = some text) :
    lineCount (done ++ [piece]) = (done ++ [piece]).length := by
  simp [lineCount_append_singleton, h, hdone]

theorem entry_of_untilError (done left : List (List UInt8)) (hdone : lineCount done = done.length)
    {n : Nat} {c : Command}
    (h : (untilError ((entries done left).map Prod.snd))[n]? = some (.ok c)) :
    (entries done left)[n]? = some (c.line, .ok c) := by
  -- Up to the first error each piece is text, so the lines counted are the pieces done.
  induction left generalizing done n with
  | nil => simp [untilError] at h
  | cons piece left ih =>
      rw [entries_cons] at h ⊢
      cases htext : text? piece with
      | none => simp [outcome?, htext, untilError, List.getElem?_cons] at h
      | some text =>
          have hcount := lineCount_append_of_text? hdone htext
          cases houtcome : outcome? (lineCount (done ++ [piece])) piece with
          | none =>
              rw [houtcome] at h
              exact ih _ hcount h
          | some outcome =>
              rw [houtcome] at h
              cases outcome with
              | error e => simp [untilError, List.getElem?_cons] at h
              | ok command =>
                  cases n with
                  | zero =>
                      obtain rfl : command = c := by simpa [untilError] using h
                      have hline := line_of_outcome? houtcome
                      simp [hline, hcount]
                  | succ n => exact ih _ hcount (by simpa [untilError] using h)

/-- Past an error they may differ: a piece that is no text has no line number. -/
example : transcript ([255, 10] ++ utf8 "#\n1,W,2,3") =
    [(1, .error (.io .invalidUtf8)), (3, .ok ⟨1, .write 2 3, 2⟩)] := by
  decide

/-! ## The first error -/

variable {ε α : Type}

theorem mapM_untilError_error (e : ε) (results : List (Except ε α)) :
    (untilError (.error e :: results)).mapM id = .error e :=
  rfl

theorem mapM_untilError_ok (a : α) (results : List (Except ε α)) :
    (untilError (.ok a :: results)).mapM id = ((untilError results).mapM id).map (a :: ·) := by
  rw [untilError, List.mapM_cons]
  cases (untilError results).mapM id <;> rfl

theorem mapM_untilError_eq_ok_iff {results : List (Except ε α)} {as : List α} :
    (untilError results).mapM id = .ok as ↔ results = as.map .ok := by
  induction results generalizing as with
  | nil => cases as <;> simp [untilError, pure, Except.pure]
  | cons result results ih =>
      cases result with
      | error e => cases as <;> simp [mapM_untilError_error]
      | ok a =>
          cases as with
          | nil =>
              rw [mapM_untilError_ok]
              cases (untilError results).mapM id <;> simp [Except.map]
          | cons b as =>
              rw [List.map_cons, List.cons.injEq, ← ih, mapM_untilError_ok]
              cases (untilError results).mapM id <;> simp [Except.map]

theorem mapM_untilError_eq_error_iff {results : List (Except ε α)} {e : ε} :
    (untilError results).mapM id = .error e ↔
      ∃ (as : List α) (more : List (Except ε α)), results = as.map .ok ++ .error e :: more := by
  induction results with
  | nil => simp [untilError, pure, Except.pure]
  | cons result results ih =>
      cases result with
      | error e' =>
          rw [mapM_untilError_error]
          constructor
          · rintro ⟨⟩
            exact ⟨[], results, rfl⟩
          · rintro ⟨as, more, h⟩
            cases as <;> simp_all
      | ok a =>
          have hmap : ((untilError results).mapM id).map (a :: ·) = .error e ↔
              (untilError results).mapM id = .error e := by
            cases (untilError results).mapM id <;> simp [Except.map]
          rw [mapM_untilError_ok, hmap, ih]
          constructor
          · rintro ⟨as, more, rfl⟩
            exact ⟨a :: as, more, rfl⟩
          · rintro ⟨as, more, h⟩
            cases as with
            | nil => simp at h
            | cons b as => exact ⟨as, more, (List.cons.inj h).2⟩

end Script

end BankedStore
