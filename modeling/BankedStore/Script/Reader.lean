import BankedStore.Script.Line

/-!
Reading a script from bytes, one line at a time.  Lines end after a line feed, and the last may lack
one.  A line that is not UTF-8 is an error; it is passed over and does not count as a line.  Reading
may go on after any error.  `Reader.commands` is the run of a reader up to its first error.
-/

namespace BankedStore

def cutLine : List UInt8 → List UInt8 × List UInt8
  | [] => ([], [])
  | byte :: rest =>
      if byte = 10 then ([byte], rest)
      else ((byte :: (cutLine rest).1), (cutLine rest).2)

theorem length_cutLine_snd_le (bytes : List UInt8) : (cutLine bytes).2.length ≤ bytes.length := by
  induction bytes with
  | nil => simp [cutLine]
  | cons byte rest ih =>
    unfold cutLine
    split
    · simp
    · simp only [List.length_cons]
      omega

theorem length_cutLine_snd_lt {bytes : List UInt8} (h : bytes ≠ []) :
    (cutLine bytes).2.length < bytes.length := by
  cases bytes with
  | nil => contradiction
  | cons byte rest =>
    have := length_cutLine_snd_le rest
    unfold cutLine
    split
    · simp
    · simp only [List.length_cons]
      omega

structure Reader where
  rest : List UInt8
  lines : Nat := 0
  commandsRead : Nat := 0
  deriving DecidableEq, Repr

namespace Reader

/-- The next command, or none at the end; lines without a command are passed over. -/
def next (r : Reader) : Except ScriptError (Option Command) × Reader :=
  if h : r.rest = [] then (.ok none, r)
  else
    let cut := cutLine r.rest
    have := length_cutLine_snd_lt h
    match String.fromUTF8? cut.1.toByteArray with
    | none => (.error (.io .invalidUtf8), { r with rest := cut.2 })
    | some text =>
        match Line.parse (r.lines + 1) text with
        | .error e => (.error e, { r with rest := cut.2, lines := r.lines + 1 })
        | .ok (some command) => (.ok (some command), ⟨cut.2, r.lines + 1, r.commandsRead + 1⟩)
        | .ok none => next { r with rest := cut.2, lines := r.lines + 1 }
  termination_by r.rest.length

theorem next_of_rest_eq_nil {r : Reader} (h : r.rest = []) : r.next = (.ok none, r) := by
  rw [next, dif_pos h]

theorem length_rest_next_lt {r : Reader} (h : r.next.1 ≠ .ok none) :
    r.next.2.rest.length < r.rest.length := by
  fun_induction next r <;> grind [length_cutLine_snd_lt]

end Reader

/-- The commands of a reader one by one, finished after the end or the first error. -/
structure CommandStream where
  reader : Reader
  finished : Bool := false
  deriving DecidableEq, Repr

namespace CommandStream

def next? (s : CommandStream) : Option (Except ScriptError Command) × CommandStream :=
  if s.finished then (none, s)
  else
    match s.reader.next with
    | (.ok (some command), reader) => (some (.ok command), ⟨reader, false⟩)
    | (.ok none, reader) => (none, ⟨reader, true⟩)
    | (.error e, reader) => (some (.error e), ⟨reader, true⟩)

/-- Lines that can still yield something. -/
def fuel (s : CommandStream) : Nat :=
  if s.finished then 0 else s.reader.rest.length + 1

theorem fuel_next?_lt {s : CommandStream} (h : s.next?.1 ≠ none) : s.next?.2.fuel < s.fuel := by
  have := Reader.length_rest_next_lt (r := s.reader)
  unfold next? at *
  grind [fuel]

def toList (s : CommandStream) : List (Except ScriptError Command) × CommandStream :=
  match h : s.next? with
  | (some item, rest) =>
      have : rest.fuel < s.fuel := by
        have := fuel_next?_lt (s := s) (by simp [h])
        simpa [h] using this
      (item :: rest.toList.1, rest.toList.2)
  | (none, rest) => ([], rest)
  termination_by s.fuel

end CommandStream

/-- The commands up to the first error, which comes last if there is one. -/
def Reader.commands (r : Reader) : List (Except ScriptError Command) :=
  (CommandStream.toList ⟨r, false⟩).1

def loadScript (bytes : List UInt8) : Except ScriptError (List Command) :=
  (Reader.commands ⟨bytes, 0, 0⟩).mapM id

end BankedStore
