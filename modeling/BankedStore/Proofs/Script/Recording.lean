import BankedStore.Proofs.Script.Printing
import BankedStore.Proofs.Script.Reading

/-!
# Recorded scripts read back

Commands and comments may be written to a sink in any order.  Reading the bytes of
the sink gives the commands back, each on the line where it was written, and
nothing that a comment says is read as a command.

A reader that has taken in all that was written so far agrees with the writer on
the lines and the commands.  Each entry is written and read with the two still in
agreement, and the theorem on whole recordings follows by induction on the entries.
-/

namespace BankedStore

namespace Writer

inductive Entry where
  | command (c : Command)
  | comment (text : String)
  deriving DecidableEq, Repr

def empty : Writer :=
  ⟨{}, 0⟩

def write (w : Writer) : Entry → Except ScriptError Unit × Writer
  | .command c => w.writeCommand c
  | .comment text => w.writeComment text

def record (w : Writer) : List Entry → List (Except ScriptError Unit) × Writer
  | [] => ([], w)
  | entry :: entries =>
      let (result, next) := w.write entry
      let (results, last) := next.record entries
      (result :: results, last)

def line (w : Writer) : Nat :=
  w.sink.bytes.count 10 + 1

/-- The commands among the entries, each with the line on which the writer puts it. -/
def commands (w : Writer) : List Entry → List Command
  | [] => []
  | .command c :: entries =>
      { c with line := w.line } :: (w.write (.command c)).2.commands entries
  | .comment text :: entries => (w.write (.comment text)).2.commands entries

/-! ## Writing -/

def commentLine (line : List Char) : String :=
  String.ofList ('#' :: ' ' :: line)

theorem ofList_commentLine (line : List Char) :
    String.ofList ('#' :: ' ' :: line ++ ['\n']) = commentLine line ++ "\n" := by
  rw [commentLine, ← String.ofList_append]

def commentBytes (lines : List (List Char)) : List UInt8 :=
  lines.flatMap fun line => utf8 (commentLine line ++ "\n")

def Entry.bytes : Entry → List UInt8
  | .command c => utf8 c.scriptLine
  | .comment text => commentBytes (textLines text.toList)

def extend (w : Writer) (bytes : List UInt8) : Writer :=
  { w with sink := { w.sink with bytes := w.sink.bytes ++ bytes } }

@[simp] theorem extend_nil (w : Writer) : w.extend [] = w := by
  simp [extend]

theorem extend_append (w : Writer) (first second : List UInt8) :
    w.extend (first ++ second) = (w.extend first).extend second := by
  simp [extend]

variable {w : Writer}

theorem writeText_eq (h : w.sink.capacity = none) (s : String) :
    w.writeText s = (.ok (), w.extend (utf8 s)) := by
  simp [writeText, Sink.write, h, extend, Except.mapError]

theorem writeCommentLines_eq (h : w.sink.capacity = none) (lines : List (List Char)) :
    w.writeCommentLines lines = (.ok (), w.extend (commentBytes lines)) := by
  induction lines generalizing w with
  | nil => simp [writeCommentLines, commentBytes]
  | cons line lines ih =>
      have hrest := ih (w := w.extend (utf8 (commentLine line ++ "\n"))) h
      rw [← extend_append] at hrest
      rw [writeCommentLines, ofList_commentLine, writeText_eq h]
      exact hrest

theorem write_command (h : w.sink.capacity = none) (c : Command) :
    w.write (.command c) =
      (.ok (), { w.extend (Entry.bytes (.command c)) with
        commandsWritten := w.commandsWritten + 1 }) := by
  rw [write, writeCommand, writeText_eq h]
  rfl

theorem write_comment (h : w.sink.capacity = none) (text : String) :
    w.write (.comment text) = (.ok (), w.extend (Entry.bytes (.comment text))) :=
  writeCommentLines_eq h _

theorem write_eq_ok (h : w.sink.capacity = none) (entry : Entry) :
    (w.write entry).1 = .ok () ∧
      (w.write entry).2.sink = ⟨none, w.sink.bytes ++ entry.bytes⟩ := by
  cases entry with
  | command c => simp [write_command h, extend, h]
  | comment text => simp [write_comment h, extend, h]

theorem record_eq_ok (h : w.sink.capacity = none) (entries : List Entry) :
    (∀ result ∈ (w.record entries).1, result = .ok ()) ∧
      (w.record entries).2.sink = ⟨none, w.sink.bytes ++ entries.flatMap Entry.bytes⟩ := by
  induction entries generalizing w with
  | nil => simp [record, ← h]
  | cons entry entries ih =>
      obtain ⟨hresult, hsink⟩ := write_eq_ok h entry
      obtain ⟨hresults, hlast⟩ := ih (w := (w.write entry).2) (by rw [hsink])
      constructor
      · simp only [record, List.mem_cons, forall_eq_or_imp]
        exact ⟨hresult, hresults⟩
      · simp [record, hlast, hsink]

/-! ## Reading back -/

def reader (w : Writer) (rest : List UInt8) : Reader :=
  ⟨rest, w.sink.bytes.count 10, w.commandsWritten⟩

variable {rest : List UInt8}

theorem count_extend_line {text : String} (h : '\n' ∉ text.toList) :
    (w.extend (utf8 (text ++ "\n"))).sink.bytes.count 10 = w.sink.bytes.count 10 + 1 := by
  have hcount : (utf8 (text ++ "\n")).count 10 = 1 := by
    rw [count_utf8, String.toList_append, List.count_append, List.count_eq_zero_of_not_mem h]
    rfl
  rw [extend, List.count_append, hcount]

theorem newline_not_mem_commentLine {line : List Char} (h : '\n' ∉ line) :
    '\n' ∉ (commentLine line).toList := by
  simpa [commentLine] using h

theorem parse_commentLine (number : Nat) (line : List Char) :
    Line.parse number (commentLine line ++ "\n") = .ok none := by
  rw [commentLine, ← String.ofList_append]
  exact Line.parse_comment number _

theorem toList_commentBytes {lines : List (List Char)} (h : ∀ line ∈ lines, '\n' ∉ line) :
    CommandStream.toList ⟨w.reader (commentBytes lines ++ rest), false⟩ =
      CommandStream.toList ⟨(w.extend (commentBytes lines)).reader rest, false⟩ := by
  induction lines generalizing w with
  | nil => simp [commentBytes]
  | cons line lines ih =>
      rw [List.forall_mem_cons] at h
      have hline := newline_not_mem_commentLine h.1
      have hbytes : commentBytes (line :: lines) =
        utf8 (commentLine line ++ "\n") ++ commentBytes lines := rfl
      rw [hbytes, extend_append, ← ih h.2, List.append_assoc, reader, CommandStream.toList_skipped
        hline (parse_commentLine _ _), reader, count_extend_line hline]
      rfl

theorem toList_command (h : w.sink.capacity = none) (c : Command) :
    CommandStream.toList ⟨w.reader (Entry.bytes (.command c) ++ rest), false⟩ =
      (.ok { c with line := w.line } ::
          (CommandStream.toList ⟨(w.write (.command c)).2.reader rest, false⟩).1,
        (CommandStream.toList ⟨(w.write (.command c)).2.reader rest, false⟩).2) := by
  have hreader : (w.write (.command c)).2.reader rest =
      ⟨rest, w.sink.bytes.count 10 + 1, w.commandsWritten + 1⟩ := by
    rw [write_command h, reader, Entry.bytes, Command.scriptLine]
    rw [← count_extend_line c.newline_not_mem_text]
  rw [hreader]
  exact CommandStream.toList_command c.newline_not_mem_text (c.parse_scriptLine _)

theorem toList_comment (h : w.sink.capacity = none) (text : String) :
    CommandStream.toList ⟨w.reader (Entry.bytes (.comment text) ++ rest), false⟩ =
      CommandStream.toList ⟨(w.write (.comment text)).2.reader rest, false⟩ := by
  rw [write_comment h]
  exact toList_commentBytes (newline_not_mem_textLines _)

theorem toList_record (h : w.sink.capacity = none) (entries : List Entry) :
    CommandStream.toList ⟨w.reader (entries.flatMap Entry.bytes), false⟩ =
      ((w.commands entries).map .ok, ⟨(w.record entries).2.reader [], true⟩) := by
  induction entries generalizing w with
  | nil => exact CommandStream.toList_end
  | cons entry entries ih =>
      have hnext : (w.write entry).2.sink.capacity = none := by
        rw [(write_eq_ok h entry).2]
      rw [List.flatMap_cons]
      cases entry with
      | command c => rw [toList_command h, ih hnext, commands, record, List.map_cons]
      | comment text => rw [toList_comment h, ih hnext, commands, record]

/-- No write fails.  Reading the sink to its end gives exactly the commands, each with the line on
which it was written, and no error; the reader has then counted the line feeds in the sink, and as
many commands as the writer. -/
theorem record_reads_back (entries : List Entry) :
    (∀ result ∈ (empty.record entries).1, result = .ok ()) ∧
      CommandStream.toList ⟨⟨(empty.record entries).2.sink.bytes, 0, 0⟩, false⟩ =
        ((empty.commands entries).map .ok, ⟨⟨[], (empty.record entries).2.sink.bytes.count 10,
          (empty.record entries).2.commandsWritten⟩, true⟩) := by
  obtain ⟨hresults, hsink⟩ := record_eq_ok (w := empty) rfl entries
  have hbytes : (empty.record entries).2.sink.bytes = entries.flatMap Entry.bytes := by
    rw [hsink]
    rfl
  refine ⟨hresults, ?_⟩
  nth_rewrite 1 [hbytes]
  exact toList_record (w := empty) rfl entries

/-- Each line of a comment starts with the mark, also where the text ends its lines with carriage
returns or looks like a request. -/
example : (empty.record [.comment "a\r\n0,W,0,1\rb", .command ⟨2, .write 16 255, 0⟩]).2.sink.bytes =
    utf8 "# a\n# 0,W,0,1\rb\n2,W,10,ff\n" := by
  decide

end Writer

end BankedStore
