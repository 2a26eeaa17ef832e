import BankedStore.Text.Quoted

/-!
What can be wrong with a script: it cannot be read or written as text, or one of its lines is not a
command.
-/

namespace BankedStore

inductive IoError where
  | invalidUtf8
  | sinkFull
  | notFound
  | other (detail : String)
  deriving DecidableEq, Repr

def IoError.message : IoError → String
  | invalidUtf8 => "stream did not contain valid UTF-8"
  | sinkFull => "failed to write whole buffer"
  | notFound => "No such file or directory (os error 2)"
  | other detail => detail

inductive LineError where
  | fieldCount (found : Nat)
  | delay (field : String)
  | number (what field : String) (cause : Numeral.Error)
  | other (detail : String)
  deriving DecidableEq, Repr

def LineError.message : LineError → String
  | fieldCount found => s!"expected 4 fields, found {found}"
  | delay field => s!"invalid delay {Text.quote field}"
  | number what field cause => s!"invalid {what} {Text.quote field}: {cause.message}"
  | other detail => detail

inductive ScriptError where
  | io (cause : IoError)
  | malformed (line : Nat) (cause : LineError)
  | unknownKind (line : Nat) (kind : String)
  deriving DecidableEq, Repr

def ScriptError.message : ScriptError → String
  | io cause => s!"I/O error: {cause.message}"
  | malformed line cause => s!"malformed request on line {line}: {cause.message}"
  | unknownKind line kind =>
      s!"line {line}: request kind must be R or W, found {Text.quote kind}"

end BankedStore
