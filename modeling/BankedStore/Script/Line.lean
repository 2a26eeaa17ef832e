import BankedStore.Script.Command
import BankedStore.Script.Error
import BankedStore.Text.Blank

/-!
One line of a script.  White space around the line and around each field does not count.  A line
that is then empty or starts with `#` carries no command; any other has four fields between commas.
The delay is decimal, address and data are hex with an optional `0x`, and the kind is `W` or `R`.
Faults are reported in the order count, delay, address, data, kind.
-/

namespace BankedStore.Line

def fields : List Char → List (List Char)
  | [] => [[]]
  | ',' :: rest => [] :: fields rest
  | c :: rest =>
      match fields rest with
      | field :: more => (c :: field) :: more
      | [] => [[c]]

def stripHexPrefix : List Char → List Char
  | '0' :: 'x' :: digits => digits
  | '0' :: 'X' :: digits => digits
  | digits => digits

def parseHex (line : Nat) (what : String) (field : List Char) : Except ScriptError UInt64 :=
  match Numeral.read 16 (stripHexPrefix field) with
  | .ok value => .ok value.toUInt64
  | .error cause => .error (.malformed line (.number what (String.ofList field) cause))

def parseDelay (line : Nat) (field : List Char) : Except ScriptError UInt64 :=
  match Numeral.read 10 field with
  | .ok value => .ok value.toUInt64
  | .error _ => .error (.malformed line (.delay (String.ofList field)))

def parseFields (line : Nat) : List (List Char) → Except ScriptError Command
  | [delay, kind, addr, data] => do
      let delay ← parseDelay line delay
      let addr ← parseHex line "address" addr
      let data ← parseHex line "data" data
      if kind = ['W'] then return ⟨delay, .write addr data, line⟩
      else if kind = ['R'] then return ⟨delay, .read addr data, line⟩
      else throw (.unknownKind line (String.ofList kind))
  | fields => .error (.malformed line (.fieldCount fields.length))

def parse (line : Nat) (text : String) : Except ScriptError (Option Command) :=
  match Text.trim text.toList with
  | [] => .ok none
  | '#' :: _ => .ok none
  | trimmed => (parseFields line ((fields trimmed).map Text.trim)).map some

end BankedStore.Line
