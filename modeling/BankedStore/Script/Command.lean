import BankedStore.Text.Numeral

/-!
The commands of a request script.  A command lets some cycles pass and then writes a word or reads
one and states what it must be.  Its text is one line of four fields: the delay in decimal, the
kind, and the address and the data in hex.
-/

namespace BankedStore

inductive Request where
  | write (addr data : UInt64)
  | read (addr expected : UInt64)
  deriving DecidableEq, Repr

namespace Request

def addr : Request → UInt64
  | write addr _ => addr
  | read addr _ => addr

/-- The data a write carries, or the data that a read must find. -/
def data : Request → UInt64
  | write _ data => data
  | read _ expected => expected

def isWrite : Request → Bool
  | write .. => true
  | read .. => false

def kind (r : Request) : String :=
  if r.isWrite then "W" else "R"

end Request

/-- Lines count from 1; a command that comes from no script has line 0. -/
structure Command where
  delay : UInt64
  request : Request
  line : Nat := 0
  deriving DecidableEq, Repr

namespace Command

def text (c : Command) : String :=
  toString c.delay.toNat ++ "," ++ c.request.kind ++ "," ++ Numeral.hex c.request.addr.toNat ++ ","
    ++ Numeral.hex c.request.data.toNat

def scriptLine (c : Command) : String :=
  c.text ++ "\n"

end Command

end BankedStore
