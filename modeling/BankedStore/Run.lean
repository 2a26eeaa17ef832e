import BankedStore.Bus.Link
import BankedStore.Bus.MemoryBus
import BankedStore.Playback
import BankedStore.Script.Reader

/-!
A whole run: a script is loaded, a fresh memory is built and linked, and the script is played on
the link.  An error in the script comes before one in the configuration, and that before one in
playback.
-/

namespace BankedStore

inductive RunError where
  | script (cause : ScriptError)
  | config (cause : Rejection)
  | playback (cause : PlayError)
  deriving DecidableEq, Repr

namespace RunError

def message : RunError → String
  | script cause => cause.message
  | config cause => s!"memory configuration: {cause.message}"
  | playback cause => cause.message

def source? : RunError → Option String
  | script (.io cause) => some cause.message
  | config cause => some cause.message
  | _ => none

end RunError

def runScript (script : List UInt8) (t : ElementType) (config : Config) (warmup : UInt64) :
    Except (Failure RunError) Report := do
  let commands ← Failure.ofRefusal ((loadScript script).mapError .script)
  let memory ← (Memory.new t config).mapError (Failure.map .config)
  let map ← Failure.ofFault (AddressMap.ofGeometry memory.geometry)
  let link : Link (MemoryBus t) := .connect ⟨memory, map, 0⟩
  let (result, link) := Player.play ⟨commands, warmup⟩ link
  let _ ← Failure.ofRefusal (link.join.mapError fun e => .playback (.bus e))
  result.mapError (Failure.map .playback)

end BankedStore
