/-!
Why an array is not built, or a checked access to it is refused.
-/

namespace BankedStore

inductive Rejection where
  | zeroEntries
  | zeroBanks
  | zeroByteEnables
  | zeroWidth
  | unevenBanks (entries banks : Nat)
  | unevenSlices (width slices : Nat)
  | indexOutOfRange (index entries : Nat)
  | bankOutOfRange (bank banks : Nat)
  | maskLengthMismatch (mask slices : Nat)
  | zeroWays
  | unevenWays (lines ways : Nat)
  deriving DecidableEq, Repr

def Rejection.message : Rejection → String
  | zeroEntries => "array must have at least one entry"
  | zeroBanks => "array must have at least one bank"
  | zeroByteEnables => "array must have at least one byte enable"
  | zeroWidth => "element type serializes to zero bits"
  | unevenBanks entries banks => s!"{entries} entries cannot be split evenly across {banks} banks"
  | unevenSlices width slices => s!"{width}-bit word cannot be split into {slices} equal slices"
  | indexOutOfRange index entries =>
      s!"local index {index} out of range: each bank holds {entries} entries"
  | bankOutOfRange bank banks => s!"bank {bank} out of range: array has {banks} banks"
  | maskLengthMismatch mask slices =>
      s!"write mask has {mask} bits but entries have {slices} slices"
  | zeroWays => "line array must have at least one way"
  | unevenWays lines ways => s!"{lines} lines cannot be split evenly into {ways} ways"

end BankedStore
