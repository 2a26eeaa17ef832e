import BankedStore.CommandLine

/-!
The program: reads the script from a file and prints the outcome of the command line.
-/

namespace BankedStore.CommandLine

def readScript (path : String) : IO (Except IoError (List UInt8)) := do
  try
    let bytes ← IO.FS.readBinFile path
    return .ok bytes.data.toList
  catch
    | .noFileOrDirectory .. => return .error .notFound
    | e => return .error (.other (toString e))

end BankedStore.CommandLine

def main (args : List String) : IO UInt32 := do
  let script ← match BankedStore.CommandLine.parse args with
    | some o => BankedStore.CommandLine.readScript o.script
    | none => pure (.error .notFound)
  let outcome := BankedStore.CommandLine.run args fun _ => script
  (← IO.getStdout).putStr outcome.stdout
  (← IO.getStderr).putStr outcome.stderr
  return outcome.status.toUInt32
