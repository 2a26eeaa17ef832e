import BankedStore.Proofs.Script.Recording

/-!
# A sink that fills up

A sink with a capacity keeps the bytes that fit and refuses the others, so that a call
can fail in the middle of a line, or after some lines of a comment.  The calls go on after
a failure.  At every point the sink holds the first bytes of what an unlimited one
would hold, and the writer has counted the commands that it holds as a whole.

Two writes of which the first succeeds do what one write of all their bytes does, and a
write that fails leaves no room for another.  So each call is one write, in however many
pieces the sink is given its bytes, and the theorem follows by induction on the calls.
-/

namespace BankedStore

/-! ## The sink -/

namespace Sink

/-- The sink when these bytes were offered to it, whether or not they fitted. -/
def offered (capacity : Nat) (total : List UInt8) : Sink :=
  ⟨some capacity, total.take capacity⟩

@[simp] theorem write_nil (s : Sink) : s.write [] = (.ok (), s) := by
  obtain ⟨capacity, bytes⟩ := s
  cases capacity <;> simp [write]

variable {s : Sink} {first : List UInt8}

theorem write_append_of_ok (second : List UInt8) (h : (s.write first).1 = .ok ()) :
    s.write (first ++ second) = (s.write first).2.write second := by
  cases hcapacity : s.capacity with
  | none => simp [write, hcapacity]
  | some capacity =>
      have hroom : first.length ≤ capacity - s.bytes.length := by
        by_contra hroom
        simp [write, hcapacity, hroom] at h
      have hrest : capacity - (s.bytes.length + first.length) =
          capacity - s.bytes.length - first.length := by
        omega
      simp only [write, hcapacity, List.take_append, List.take_of_length_le hroom,
        List.length_append, hrest, List.append_assoc, Prod.mk.injEq, and_true]
      have hfits : first.length + second.length ≤ capacity - s.bytes.length ↔
          second.length ≤ capacity - s.bytes.length - first.length := by
        omega
      simp only [hfits]

theorem write_append_of_error {e : IoError} (second : List UInt8)
    (h : (s.write first).1 = .error e) : s.write (first ++ second) = s.write first := by
  cases hcapacity : s.capacity with
  | none => simp [write, hcapacity] at h
  | some capacity =>
      have hroom : capacity - s.bytes.length < first.length := by
        by_contra hroom
        simp [write, hcapacity, Nat.le_of_not_lt hroom] at h
      have hfull : ¬ first.length + second.length ≤ capacity - s.bytes.length := by
        omega
      simp [write, hcapacity, List.take_append_of_le_length hroom.le, hfull, hroom.not_ge]

/-- Bytes that were refused count like those that were taken: after them no byte fits. -/
theorem write_offered (capacity : Nat) (total data : List UInt8) :
    (offered capacity total).write data =
      (if data = [] ∨ (total ++ data).length ≤ capacity then .ok () else .error .sinkFull,
        offered capacity (total ++ data)) := by
  have hroom : capacity - (total.take capacity).length = capacity - total.length := by
    rw [List.length_take]
    omega
  have hfits : data.length ≤ capacity - total.length ↔
      data = [] ∨ (total ++ data).length ≤ capacity := by
    rw [← List.length_eq_zero_iff, List.length_append]
    omega
  simp only [write, offered, hroom, hfits, List.take_append]

end Sink

namespace Writer

/-! ## Calls in one write -/

def send (w : Writer) (data : List UInt8) : Except ScriptError Unit × Writer :=
  ((w.sink.write data).1.mapError .io, { w with sink := (w.sink.write data).2 })

def writePieces (w : Writer) : List String → Except ScriptError Unit × Writer
  | [] => (.ok (), w)
  | piece :: more =>
      match w.writeText piece with
      | (.ok (), w) => w.writePieces more
      | (.error e, w) => (.error e, w)

def commentPieces (text : String) : List String :=
  (textLines text.toList).flatMap fun line => ["# ", String.ofList line, "\n"]

variable {w : Writer} {first : List UInt8}

theorem writeText_eq_send (w : Writer) (s : String) : w.writeText s = w.send (utf8 s) :=
  rfl

@[simp] theorem send_nil (w : Writer) : w.send [] = (.ok (), w) := by
  rw [send, Sink.write_nil]
  rfl

theorem send_append_of_ok (second : List UInt8) (h : (w.send first).1 = .ok ()) :
    w.send (first ++ second) = (w.send first).2.send second := by
  have hfirst : (w.sink.write first).1 = .ok () := by
    cases hwrite : (w.sink.write first).1 <;> simp_all [send, Except.mapError]
  rw [send, Sink.write_append_of_ok second hfirst]
  rfl

theorem send_append_of_error {e : ScriptError} (second : List UInt8)
    (h : (w.send first).1 = .error e) : w.send (first ++ second) = w.send first := by
  cases hwrite : (w.sink.write first).1 with
  | ok u => simp [send, hwrite, Except.mapError] at h
  | error cause => rw [send, Sink.write_append_of_error second hwrite, send]

theorem writePieces_eq_send (w : Writer) (pieces : List String) :
    w.writePieces pieces = w.send (pieces.flatMap utf8) := by
  induction pieces generalizing w with
  | nil => rw [writePieces, List.flatMap_nil, send_nil]
  | cons piece more ih =>
      rw [writePieces, writeText_eq_send, List.flatMap_cons]
      cases hsend : w.send (utf8 piece) with
      | mk result next =>
          cases result with
          | ok u => simp [send_append_of_ok _ (congrArg Prod.fst hsend), hsend, ih]
          | error e => simp [send_append_of_error _ (congrArg Prod.fst hsend), hsend]

theorem writeCommentLines_eq_writePieces (w : Writer) (lines : List (List Char)) :
    w.writeCommentLines lines = w.writePieces (lines.map fun line => commentLine line ++ "\n") := by
  induction lines generalizing w with
  | nil => rfl
  | cons line lines ih =>
      rw [writeCommentLines, ofList_commentLine, List.map_cons, writePieces]
      cases hwrite : w.writeText (commentLine line ++ "\n") with
      | mk result next =>
          cases result with
          | ok u => exact ih next
          | error e => rfl

theorem writeComment_eq_send (w : Writer) (text : String) :
    w.writeComment text = w.send (Entry.bytes (.comment text)) := by
  rw [writeComment, writeCommentLines_eq_writePieces, writePieces_eq_send, Entry.bytes,
    commentBytes, List.flatMap_map]

/-- A comment may as well be given to the sink in pieces. -/
theorem writePieces_commentPieces (w : Writer) (text : String) :
    w.writePieces (commentPieces text) = w.writeComment text := by
  have hline : ∀ line, ["# ", String.ofList line, "\n"].flatMap utf8 =
      utf8 (commentLine line ++ "\n") := by
    intro line
    simp [utf8_eq_flatMap, commentLine]
  rw [writePieces_eq_send, writeComment_eq_send, commentPieces, List.flatMap_assoc]
  simp only [hline, Entry.bytes, commentBytes]

def accepted : Entry × Except ScriptError Unit → Bool
  | (.command _, .ok ()) => true
  | _ => false

theorem write_eq_send (w : Writer) (entry : Entry) :
    (w.write entry).1 = (w.send entry.bytes).1 ∧
      (w.write entry).2.sink = (w.send entry.bytes).2.sink ∧
        (w.write entry).2.commandsWritten =
          w.commandsWritten + if accepted (entry, (w.write entry).1) then 1 else 0 := by
  cases entry with
  | command c =>
      rw [write, writeCommand, writeText_eq_send, Entry.bytes]
      cases hsend : w.send (utf8 c.scriptLine) with
      | mk result next =>
          have hcount : next.commandsWritten = w.commandsWritten :=
            congrArg (·.2.commandsWritten) hsend.symm
          cases result <;> simp [accepted, hcount]
  | comment text =>
      rw [write, writeComment_eq_send]
      exact ⟨rfl, rfl, rfl⟩

/-! ## Calls one after the other -/

def bounded (capacity : Nat) : Writer :=
  ⟨⟨some capacity, []⟩, 0⟩

/-- What an unlimited sink holds after the calls. -/
def unlimited (entries : List Entry) : List UInt8 :=
  (empty.record entries).2.sink.bytes

theorem unlimited_eq_flatMap (entries : List Entry) :
    unlimited entries = entries.flatMap Entry.bytes := by
  rw [unlimited, (record_eq_ok rfl entries).2]
  rfl

theorem record_append (w : Writer) (earlier later : List Entry) :
    w.record (earlier ++ later) =
      ((w.record earlier).1 ++ ((w.record earlier).2.record later).1,
        ((w.record earlier).2.record later).2) := by
  induction earlier generalizing w with
  | nil => rfl
  | cons entry earlier ih => simp [record, ih]

@[simp] theorem length_record (w : Writer) (entries : List Entry) :
    (w.record entries).1.length = entries.length := by
  induction entries generalizing w with
  | nil => rfl
  | cons entry entries ih => simp [record, ih]

theorem record_getElem? (w : Writer) (earlier : List Entry) (entry : Entry) (later : List Entry) :
    (w.record (earlier ++ entry :: later)).1[earlier.length]? =
      some ((w.record earlier).2.write entry).1 := by
  rw [record_append, List.getElem?_append_right (by simp)]
  simp [record]

theorem commandsWritten_record (w : Writer) (entries : List Entry) :
    (w.record entries).2.commandsWritten =
      w.commandsWritten + (entries.zip (w.record entries).1).countP accepted := by
  induction entries generalizing w with
  | nil => rfl
  | cons entry entries ih =>
      rw [record, ih, (write_eq_send w entry).2.2, List.zip_cons_cons, List.countP_cons]
      omega

/-! ## Sinks with a capacity -/

theorem textLines_eq_nil_iff {text : List Char} : textLines text = [] ↔ text = [] := by
  fun_cases textLines text <;> simp

theorem bytes_eq_nil_iff (entry : Entry) : entry.bytes = [] ↔ entry = .comment "" := by
  cases entry with
  | command c => simp [Entry.bytes, Command.scriptLine, utf8_line]
  | comment text =>
      simp [Entry.bytes, commentBytes, utf8_line, ← List.eq_nil_iff_forall_not_mem,
        textLines_eq_nil_iff]

def answer (capacity : Nat) (entry : Entry) (total : List UInt8) : Except ScriptError Unit :=
  if entry = .comment "" ∨ total.length ≤ capacity then .ok () else .error (.io .sinkFull)

variable {capacity : Nat} {total : List UInt8}

theorem write_offered (h : w.sink = .offered capacity total) (entry : Entry) :
    (w.write entry).1 = answer capacity entry (total ++ entry.bytes) ∧
      (w.write entry).2.sink = .offered capacity (total ++ entry.bytes) := by
  obtain ⟨hresult, hsink, -⟩ := write_eq_send w entry
  rw [hresult, hsink, send, h, Sink.write_offered]
  simp only [bytes_eq_nil_iff, answer, and_true]
  split <;> rfl

theorem record_offered (h : w.sink = .offered capacity total) (entries : List Entry) :
    (w.record entries).2.sink = .offered capacity (total ++ entries.flatMap Entry.bytes) := by
  induction entries generalizing w total with
  | nil => simp [record, h]
  | cons entry entries ih =>
      rw [record, ih (write_offered h entry).2, List.flatMap_cons, List.append_assoc]

theorem sink_record_bounded (capacity : Nat) (entries : List Entry) :
    ((bounded capacity).record entries).2.sink = .offered capacity (unlimited entries) := by
  have hnone : (bounded capacity).sink = .offered capacity [] := by
    simp [bounded, Sink.offered]
  rw [record_offered hnone, unlimited_eq_flatMap, List.nil_append]

structure CallEnds (capacity : Nat) (earlier : List Entry) (entry : Entry) (later : List Entry) :
    Prop where
  /-- Only the empty comment sends nothing. -/
  silent_iff : unlimited (earlier ++ [entry]) = unlimited earlier ↔ entry = .comment ""
  result : ((bounded capacity).record (earlier ++ entry :: later)).1[earlier.length]? =
    some (answer capacity entry (unlimited (earlier ++ [entry])))
  /-- A command succeeds just when its whole line is in the sink, behind what came before. -/
  line_kept_iff (c : Command) : entry = .command c →
    (((bounded capacity).record (earlier ++ entry :: later)).1[earlier.length]? = some (.ok ()) ↔
      unlimited earlier ++ utf8 c.scriptLine <+:
        ((bounded capacity).record (earlier ++ entry :: later)).2.sink.bytes)

theorem callEnds (capacity : Nat) (earlier : List Entry) (entry : Entry) (later : List Entry) :
    CallEnds capacity earlier entry later := by
  have hcall : unlimited (earlier ++ [entry]) = unlimited earlier ++ entry.bytes := by
    simp [unlimited_eq_flatMap]
  have hresult : ((bounded capacity).record (earlier ++ entry :: later)).1[earlier.length]? =
      some (answer capacity entry (unlimited (earlier ++ [entry]))) := by
    rw [record_getElem?, (write_offered (sink_record_bounded capacity earlier) entry).1, hcall]
  refine ⟨?_, hresult, ?_⟩
  · rw [hcall, List.append_right_eq_self, bytes_eq_nil_iff]
  · rintro c rfl
    have hprefix : unlimited earlier ++ utf8 c.scriptLine <+:
        unlimited (earlier ++ .command c :: later) :=
      ⟨later.flatMap Entry.bytes, by simp [unlimited_eq_flatMap, Entry.bytes]⟩
    rw [hresult, sink_record_bounded, Sink.offered, List.prefix_take_iff, hcall]
    simp [answer, hprefix, Entry.bytes]

/-- The sink holds the first bytes of the unlimited output, after each call and after each piece of
a comment.  A call that sends something fails just when the unlimited output up to its end is longer
than the capacity, and an empty comment never fails.  The commands counted are those whose call
succeeded, which are those whose whole line is in the sink. -/
theorem record_on_full_sink (capacity : Nat) :
    (∀ entries, ((bounded capacity).record entries).2.sink.bytes =
        (unlimited entries).take capacity) ∧
      (∀ earlier pieces, (((bounded capacity).record earlier).2.writePieces pieces).2.sink.bytes =
        ((empty.record earlier).2.writePieces pieces).2.sink.bytes.take capacity) ∧
      (∀ (w : Writer) text, w.writeComment text = w.writePieces (commentPieces text)) ∧
      (∀ earlier entry later, CallEnds capacity earlier entry later) ∧
      ∀ entries, ((bounded capacity).record entries).2.commandsWritten =
        (entries.zip ((bounded capacity).record entries).1).countP accepted := by
  refine ⟨?_, ?_, ?_, callEnds capacity, ?_⟩
  · intro entries
    rw [sink_record_bounded, Sink.offered]
  · intro earlier pieces
    have hunlimited : (empty.record earlier).2.sink = ⟨none, unlimited earlier⟩ := by
      rw [(record_eq_ok rfl earlier).2, unlimited_eq_flatMap]
      rfl
    simp only [writePieces_eq_send, send, sink_record_bounded, Sink.write_offered, hunlimited]
    rfl
  · intro w text
    rw [writePieces_commentPieces]
  · intro entries
    simpa [bounded] using commandsWritten_record (bounded capacity) entries

/-- The sink is full after the mark of the second line of the comment. -/
example : (bounded 15).record [.command ⟨2, .write 16 255, 0⟩, .comment "a\nb", .comment "",
      .command ⟨0, .read 1 1, 0⟩] =
    ([.ok (), .error (.io .sinkFull), .ok (), .error (.io .sinkFull)],
      ⟨⟨some 15, utf8 "2,W,10,ff\n# a\n#"⟩, 1⟩) := by
  decide

end Writer

end BankedStore
