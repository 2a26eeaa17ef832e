import BankedStore.Run

/-!
The command line: a script to play and options that shape the memory.  An option is given once, as
`--name value` or `--name=value`; a value does not start with a hyphen.  After `--` only the script
may follow.
-/

namespace BankedStore.CommandLine

structure Options where
  script : String
  config : Config := { totalEntries := 1024 }
  width : IntWidth := .w64
  warmup : UInt64 := 20
  deriving DecidableEq, Repr

/-- A text that is taken for an option; a single hyphen is not. -/
def looksLikeOption (arg : String) : Bool :=
  arg.startsWith "-" && arg != "-"

def separate : List String → Option (List String × List (String × String))
  | [] => some ([], [])
  | "--" :: rest => some (rest, [])
  | arg :: rest =>
      if looksLikeOption arg then
        let (name, value) := arg.toList.span (· ≠ '=')
        match value, rest with
        | _ :: value, rest => do
            let (plain, options) ← separate rest
            some (plain, (String.ofList name, String.ofList value) :: options)
        | [], value :: rest =>
            if looksLikeOption value then none
            else do
              let (plain, options) ← separate rest
              some (plain, (String.ofList name, value) :: options)
        | [], [] => none
      else do
        let (plain, options) ← separate rest
        some (arg :: plain, options)

def number? (text : String) : Option Nat :=
  (Numeral.read 10 text.toList).toOption

def width? : String → Option IntWidth
  | "8" => some .w8
  | "16" => some .w16
  | "32" => some .w32
  | "64" => some .w64
  | _ => none

def apply (o : Options) (name value : String) : Option Options :=
  match name with
  | "--entries" => do some { o with config.totalEntries := ← number? value }
  | "--banks" => do some { o with config.bankCount := ← number? value }
  | "--byte-enables" => do some { o with config.byteEnables := ← number? value }
  | "--width" => do some { o with width := ← width? value }
  | "--warmup" => do some { o with warmup := (← number? value).toUInt64 }
  | _ => none

def parse (args : List String) : Option Options := do
  let (plain, settings) ← separate args
  match plain with
  | [script] =>
      if script.isEmpty || !(settings.map Prod.fst).Nodup then none
      else settings.foldlM (fun o (name, value) => apply o name value) { script }
  | _ => none

structure Outcome where
  status : Nat
  stdout : String := ""
  stderr : String := ""
  deriving DecidableEq, Repr

def usage : String :=
  "usage: membank-replay [--entries N] [--banks N] [--byte-enables N] [--width 8|16|32|64] "
    ++ "[--warmup N] SCRIPT\n"

/-- Status 2 is a wrong command line, 1 a failed run, and 101 a memory beyond all sizes. -/
def run (args : List String) (open_ : String → Except IoError (List UInt8)) : Outcome :=
  match parse args with
  | none => ⟨2, "", usage⟩
  | some o =>
      let result : Except (Failure RunError) Report := do
        let script ← Failure.ofRefusal ((open_ o.script).mapError fun e => .script (.io e))
        runScript script (.uint o.width) o.config o.warmup
      match result with
      | .ok report => ⟨0, s!"{o.script}: {report.text}\n", ""⟩
      | .error (.refused e) => ⟨1, "", s!"membank-replay: {e.message}\n"⟩
      | .error (.fault e) => ⟨101, "", s!"membank-replay: {e.message}\n"⟩

end BankedStore.CommandLine
