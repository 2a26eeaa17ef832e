import BankedStore.Script.Command
import BankedStore.Script.Error

/-!
Writing a script.  A command is one line; a comment is written line by line, each line behind `# `,
so that none of its text can be taken for a command.  A sink with a capacity keeps the bytes that
fit and fails on the others.
-/

namespace BankedStore

structure Sink where
  capacity : Option Nat := none
  bytes : List UInt8 := []
  deriving DecidableEq, Repr

/-- Bytes that fit are kept also when the write fails. -/
def Sink.write (s : Sink) (data : List UInt8) : Except IoError Unit × Sink :=
  match s.capacity with
  | none => (.ok (), { s with bytes := s.bytes ++ data })
  | some capacity =>
      let room := capacity - s.bytes.length
      (if data.length ≤ room then .ok () else .error .sinkFull,
        { s with bytes := s.bytes ++ data.take room })

/-- The lines of a text without their ends, which are a line feed, or a carriage return and a line
feed.  What follows the last line feed is a line unless it is empty. -/
def textLines : List Char → List (List Char)
  | [] => []
  | '\r' :: '\n' :: rest => [] :: textLines rest
  | '\n' :: rest => [] :: textLines rest
  | c :: rest =>
      match textLines rest with
      | line :: more => (c :: line) :: more
      | [] => [[c]]

def utf8 (s : String) : List UInt8 :=
  s.toUTF8.data.toList

structure Writer where
  sink : Sink
  commandsWritten : Nat := 0
  deriving DecidableEq, Repr

namespace Writer

def writeText (w : Writer) (s : String) : Except ScriptError Unit × Writer :=
  let (result, sink) := w.sink.write (utf8 s)
  (result.mapError .io, { w with sink })

def writeCommand (w : Writer) (c : Command) : Except ScriptError Unit × Writer :=
  match w.writeText c.scriptLine with
  | (.ok (), w) => (.ok (), { w with commandsWritten := w.commandsWritten + 1 })
  | (.error e, w) => (.error e, w)

def writeCommentLines (w : Writer) : List (List Char) → Except ScriptError Unit × Writer
  | [] => (.ok (), w)
  | line :: more =>
      match w.writeText (String.ofList ('#' :: ' ' :: line ++ ['\n'])) with
      | (.ok (), w) => writeCommentLines w more
      | (.error e, w) => (.error e, w)

def writeComment (w : Writer) (text : String) : Except ScriptError Unit × Writer :=
  w.writeCommentLines (textLines text.toList)

end Writer

end BankedStore
