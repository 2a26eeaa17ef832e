import BankedStore.Proofs.Script.Transcript

/-!
# Readers follow the transcript

A reader that is called again and again goes through the transcript of its bytes
entry by entry, whatever the entries are, and then stays at the end.  A stream of
commands goes up to the first error.  One call is described first, for a reader
that is done with some of the pieces; runs of calls and streams follow by induction.
-/

namespace BankedStore

open Script

namespace Reader

def after (r : Reader) : Nat → Reader
  | 0 => r
  | calls + 1 => r.next.2.after calls

/-! ## One call -/

inductive CallEnds (r : Reader) (done : List (List UInt8)) : Prop where
  | finished (hentries : entries done (pieces r.rest) = [])
      (hnext : r.next = (.ok none, ⟨[], lineCount (done ++ pieces r.rest), r.commandsRead⟩))
  | returned (passed : List (List UInt8)) (rest : List UInt8) (outcome : Outcome)
      (hpieces : pieces r.rest = passed ++ pieces rest)
      (hentries : entries done (pieces r.rest) =
        ((done ++ passed).length, outcome) :: entries (done ++ passed) (pieces rest))
      (hnext : r.next = (outcome.map some,
        ⟨rest, lineCount (done ++ passed), r.commandsRead + outcome.isOk.toNat⟩))

private theorem CallEnds.of_outcome {r : Reader} {done : List (List UInt8)} (outcome : Outcome)
    (hrest : r.rest ≠ [])
    (houtcome : outcome? (lineCount (done ++ [(cutLine r.rest).1])) (cutLine r.rest).1 =
      some outcome)
    (hnext : r.next = (outcome.map some, ⟨(cutLine r.rest).2,
      lineCount (done ++ [(cutLine r.rest).1]), r.commandsRead + outcome.isOk.toNat⟩)) :
    r.CallEnds done := by
  refine .returned [(cutLine r.rest).1] _ outcome (pieces_eq_cons hrest) ?_ hnext
  rw [pieces_eq_cons hrest, entries_cons, houtcome, List.length_append, List.length_singleton]

private theorem CallEnds.of_skipped {r : Reader} {done : List (List UInt8)} {lines : Nat}
    (hrest : r.rest ≠ [])
    (houtcome : outcome? (lineCount (done ++ [(cutLine r.rest).1])) (cutLine r.rest).1 = none)
    (hnext : r.next = next ⟨(cutLine r.rest).2, lines, r.commandsRead⟩)
    (h : CallEnds ⟨(cutLine r.rest).2, lines, r.commandsRead⟩ (done ++ [(cutLine r.rest).1])) :
    r.CallEnds done := by
  have hpieces := pieces_eq_cons hrest
  have hentries := entries_cons done (cutLine r.rest).1 (pieces (cutLine r.rest).2)
  rw [← hpieces, houtcome] at hentries
  cases h with
  | finished hnil hend =>
      refine .finished (hentries.trans hnil) (hnext.trans ?_)
      rw [hend, hpieces, List.append_assoc, List.singleton_append]
  | returned passed rest outcome hpassed hmore hend =>
      refine .returned ((cutLine r.rest).1 :: passed) rest outcome ?_ ?_ ?_
      · rw [hpieces, hpassed, List.cons_append]
      · rw [hentries, hmore, List.append_assoc, List.singleton_append]
      · rw [hnext, hend, List.append_assoc, List.singleton_append]

theorem callEnds (r : Reader) (done : List (List UInt8)) (hlines : r.lines = lineCount done) :
    r.CallEnds done := by
  -- A piece without an outcome is passed over, and the bytes that are left get fewer.
  induction hlength : r.rest.length using Nat.strong_induction_on generalizing r done with
  | h length ih =>
      by_cases hrest : r.rest = []
      · refine .finished (by rw [hrest]; rfl) ?_
        rw [next_of_rest_eq_nil hrest, hrest, pieces_nil, List.append_nil, ← hlines, ← hrest]
      cases htext : text? (cutLine r.rest).1 with
      | none =>
          have hcount : lineCount (done ++ [(cutLine r.rest).1]) = r.lines := by
            rw [lineCount_append_singleton, htext, hlines]
            rfl
          refine .of_outcome (.error (.io .invalidUtf8)) hrest ?_ ?_
          · rw [outcome?, htext]
          · rw [next_of_not_text hrest htext, hcount]
            rfl
      | some text =>
          have hcount : lineCount (done ++ [(cutLine r.rest).1]) = r.lines + 1 := by
            rw [lineCount_append_singleton, htext, hlines]
            rfl
          have hnext := next_of_text hrest htext
          rcases hparse : Line.parse (r.lines + 1) text with e | _ | command
          · rw [hparse] at hnext
            refine .of_outcome (.error e) hrest ?_ (by rw [hnext, hcount]; rfl)
            simp [outcome?, htext, hcount, hparse]
          · rw [hparse] at hnext
            refine .of_skipped hrest ?_ hnext (ih _ ?_ _ _ hcount.symm rfl)
            · simp [outcome?, htext, hcount, hparse]
            · exact hlength ▸ length_cutLine_snd_lt hrest
          · rw [hparse] at hnext
            refine .of_outcome (.ok command) hrest ?_ (by rw [hnext, hcount]; rfl)
            simp [outcome?, htext, hcount, hparse]

/-! ## All calls -/

theorem countP_isOk_cons (entry : Nat × Outcome) (es : List (Nat × Outcome)) :
    (entry :: es).countP (·.2.isOk) = entry.2.isOk.toNat + es.countP (·.2.isOk) := by
  rw [List.countP_cons, Nat.add_comm]
  cases entry.2.isOk <;> rfl

theorem answer_zero (front back : List (List UInt8)) (outcome : Outcome)
    (es : List (Nat × Outcome)) (commandsRead : Nat) :
    answer (front ++ back) ((front.length, outcome) :: es) commandsRead 0 =
      (outcome.map some,
        ⟨back.flatten, lineCount front, commandsRead + outcome.isOk.toNat⟩) := by
  simp only [answer, List.getElem?_cons_zero, List.drop_left, List.take_left, List.take_succ_cons,
    List.take_zero, countP_isOk_cons, List.countP_nil, Nat.add_zero]

theorem answer_succ (ps : List (List UInt8)) (entry : Nat × Outcome)
    (es : List (Nat × Outcome)) (commandsRead number : Nat) :
    answer ps (entry :: es) commandsRead (number + 1) =
      answer ps es (commandsRead + entry.2.isOk.toNat) number := by
  rw [answer, answer, List.getElem?_cons_succ, List.take_succ_cons, countP_isOk_cons,
    countP_isOk_cons, ← Nat.add_assoc, ← Nat.add_assoc]

theorem next_after (r : Reader) (done : List (List UInt8)) (hlines : r.lines = lineCount done)
    (calls : Nat) :
    (r.after calls).next =
      answer (done ++ pieces r.rest) (entries done (pieces r.rest)) r.commandsRead calls := by
  induction calls generalizing r done with
  | zero =>
      cases r.callEnds done hlines with
      | finished hentries hnext =>
          rw [after, hnext, hentries]
          rfl
      | returned passed rest outcome hpieces hentries hnext =>
          rw [after, hnext, hentries, hpieces, ← List.append_assoc, answer_zero, flatten_pieces]
  | succ calls ih =>
      cases r.callEnds done hlines with
      | finished hentries hnext =>
          rw [after, ih r.next.2 (done ++ pieces r.rest) (by rw [hnext]), hnext, hentries]
          simp [answer]
      | returned passed rest outcome hpieces hentries hnext =>
          rw [after, ih r.next.2 (done ++ passed) (by rw [hnext]), hnext, hentries,
            answer_succ, hpieces, List.append_assoc]

end Reader

namespace CommandStream

theorem next?_of_finished {s : CommandStream} (h : s.finished = true) : s.next? = (none, s) := by
  rw [next?, if_pos h]

theorem toList_of_finished {s : CommandStream} (h : s.finished = true) : s.toList = ([], s) :=
  toList_of_next?_eq_none (next?_of_finished h)

theorem toList_reader (r : Reader) (done : List (List UInt8)) (hlines : r.lines = lineCount done) :
    (toList ⟨r, false⟩).1 = untilError ((entries done (pieces r.rest)).map Prod.snd) ∧
      (toList ⟨r, false⟩).2.finished = true := by
  induction hes : entries done (pieces r.rest) generalizing r done with
  | nil =>
      cases r.callEnds done hlines with
      | finished _ hend =>
          have hnext : next? ⟨r, false⟩ =
              (none, ⟨⟨[], lineCount (done ++ pieces r.rest), r.commandsRead⟩, true⟩) := by
            simp [next?, hend]
          rw [toList_of_next?_eq_none hnext]
          exact ⟨rfl, rfl⟩
      | returned _ _ _ _ hentries _ => simp [hes] at hentries
  | cons entry es ih =>
      cases r.callEnds done hlines with
      | finished hentries _ => simp [hes] at hentries
      | returned passed rest outcome _ hentries hend =>
          rw [hes, List.cons.injEq] at hentries
          obtain ⟨rfl, rfl⟩ := hentries
          cases outcome with
          | error e =>
              have hnext : next? ⟨r, false⟩ = (some (.error e),
                  ⟨⟨rest, lineCount (done ++ passed), r.commandsRead⟩, true⟩) := by
                simp [next?, hend, Except.map, Except.isOk, Except.toBool]
              rw [toList_of_next?_eq_some hnext, toList_of_finished rfl]
              exact ⟨rfl, rfl⟩
          | ok command =>
              have hnext : next? ⟨r, false⟩ = (some (.ok command),
                  ⟨⟨rest, lineCount (done ++ passed), r.commandsRead + 1⟩, false⟩) := by
                simp [next?, hend, Except.map, Except.isOk, Except.toBool]
              obtain ⟨hitems, hfinished⟩ :=
                ih ⟨rest, lineCount (done ++ passed), r.commandsRead + 1⟩ _ rfl rfl
              rw [toList_of_next?_eq_some hnext]
              exact ⟨congrArg (Except.ok command :: ·) hitems, hfinished⟩

end CommandStream

/-! ## A whole script -/

section Script

variable (bytes : List UInt8)

theorem Reader.commands_eq_untilError :
    Reader.commands ⟨bytes, 0, 0⟩ = untilError (outcomes bytes) :=
  (CommandStream.toList_reader ⟨bytes, 0, 0⟩ [] rfl).1

theorem Reader.entry_of_commands {n : Nat} {c : Command}
    (h : (Reader.commands ⟨bytes, 0, 0⟩)[n]? = some (.ok c)) :
    (transcript bytes)[n]? = some (c.line, .ok c) := by
  rw [commands_eq_untilError, outcomes, transcript_eq_entries] at h
  rw [transcript_eq_entries]
  exact entry_of_untilError [] (pieces bytes) rfl h

theorem Reader.line_lt_of_commands {m n : Nat} {c d : Command} (hlt : m < n)
    (hc : (Reader.commands ⟨bytes, 0, 0⟩)[m]? = some (.ok c))
    (hd : (Reader.commands ⟨bytes, 0, 0⟩)[n]? = some (.ok d)) : c.line < d.line := by
  obtain ⟨hm, hentry⟩ := List.getElem?_eq_some_iff.mp (entry_of_commands bytes hc)
  obtain ⟨hn, hentry'⟩ := List.getElem?_eq_some_iff.mp (entry_of_commands bytes hd)
  have hsorted : (transcript bytes).Pairwise (·.1 < ·.1) := pairwise_entries [] (pieces bytes)
  have hentries := List.pairwise_iff_getElem.mp hsorted m n hm hn hlt
  rwa [hentry, hentry'] at hentries

theorem loadScript_eq_ok_iff {commands : List Command} :
    loadScript bytes = .ok commands ↔ outcomes bytes = commands.map .ok := by
  rw [loadScript, Reader.commands_eq_untilError, mapM_untilError_eq_ok_iff]

theorem loadScript_eq_error_iff {e : ScriptError} :
    loadScript bytes = .error e ↔ ∃ (commands : List Command) (more : List Outcome),
      outcomes bytes = commands.map .ok ++ .error e :: more := by
  rw [loadScript, Reader.commands_eq_untilError, mapM_untilError_eq_error_iff]

/-- Reading the bytes in any of the three ways, call by call, as a stream of commands or all at
once, gives what the transcript lists. -/
structure ReadsAsTranscript : Prop where
  /-- Calls go on after errors. -/
  call (n : Nat) :
    (Reader.after ⟨bytes, 0, 0⟩ n).next = answer (pieces bytes) (transcript bytes) 0 n
  commands : Reader.commands ⟨bytes, 0, 0⟩ = untilError (outcomes bytes)
  stream_stays : ((CommandStream.toList ⟨⟨bytes, 0, 0⟩, false⟩).2).next? =
    (none, (CommandStream.toList ⟨⟨bytes, 0, 0⟩, false⟩).2)
  /-- The number of the line is that of the piece in the bytes. -/
  line {n : Nat} {c : Command} (h : (Reader.commands ⟨bytes, 0, 0⟩)[n]? = some (.ok c)) :
    (transcript bytes)[n]? = some (c.line, .ok c)
  line_lt {m n : Nat} {c d : Command} (hlt : m < n)
    (hc : (Reader.commands ⟨bytes, 0, 0⟩)[m]? = some (.ok c))
    (hd : (Reader.commands ⟨bytes, 0, 0⟩)[n]? = some (.ok d)) : c.line < d.line
  load_ok {commands : List Command} :
    loadScript bytes = .ok commands ↔ outcomes bytes = commands.map .ok
  load_error {e : ScriptError} :
    loadScript bytes = .error e ↔ ∃ (commands : List Command) (more : List Outcome),
      outcomes bytes = commands.map .ok ++ .error e :: more

theorem readsAsTranscript : ReadsAsTranscript bytes where
  call n := Reader.next_after ⟨bytes, 0, 0⟩ [] rfl n
  commands := Reader.commands_eq_untilError bytes
  stream_stays := CommandStream.next?_of_finished
    (CommandStream.toList_reader ⟨bytes, 0, 0⟩ [] rfl).2
  line h := Reader.entry_of_commands bytes h
  line_lt hlt hc hd := Reader.line_lt_of_commands bytes hlt hc hd
  load_ok := loadScript_eq_ok_iff bytes
  load_error := loadScript_eq_error_iff bytes

end Script

end BankedStore
