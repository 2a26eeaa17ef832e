/-!
A fault is a broken contract between a caller and the store: an index past the end of an array, a
size that leaves 64 bits, a word of the wrong width.  It is kept apart from the answers that a
caller is expected to handle.  An operation that can end either way fails with a `Failure`.
-/

namespace BankedStore

inductive Fault where
  | overflow
  | divisionByZero
  | indexOutOfBounds
  | wordWidthMismatch (actual expected : Nat)
  | maskLengthMismatch (mask slices : Nat)
  | bitOutOfRange (bit width : Nat)
  | rangeOutOfBounds (low high width : Nat)
  | unevenChunks (chunk width : Nat)
  | entryOutside (index bank entries banks : Nat)
  | sliceOutOfRange (slice slices : Nat)
  | lineOutOfRange (set way sets ways : Nat)
  | noBanks
  deriving DecidableEq, Repr

namespace Fault

def message : Fault → String
  | overflow => "a size does not fit in 64 bits"
  | divisionByZero => "division by zero"
  | indexOutOfBounds => "index out of bounds"
  | wordWidthMismatch actual expected => s!"a {actual}-bit word where {expected} bits are stored"
  | maskLengthMismatch mask slices => s!"a {mask}-bit mask where entries have {slices} slices"
  | bitOutOfRange bit width => s!"bit {bit} out of range for width {width}"
  | rangeOutOfBounds low high width => s!"bit range {low}..{high} exceeds width {width}"
  | unevenChunks chunk width => s!"chunk width {chunk} does not divide width {width}"
  | entryOutside index bank entries banks =>
      s!"entry {index} in bank {bank} outside {entries} entries x {banks} banks"
  | sliceOutOfRange slice slices => s!"slice {slice} out of range for {slices} slices per entry"
  | lineOutOfRange set way sets ways =>
      s!"line ({set}, {way}) out of range for {sets} sets x {ways} ways"
  | noBanks => "address map needs at least one bank"

end Fault

/-- How an operation fails that can break a contract or be refused for a reason in `ε`. -/
inductive Failure (ε : Type) where
  | fault (cause : Fault)
  | refused (reason : ε)
  deriving DecidableEq, Repr

namespace Failure

def map {ε δ : Type} (f : ε → δ) : Failure ε → Failure δ
  | fault cause => fault cause
  | refused reason => refused (f reason)

def ofFault {ε α : Type} (x : Except Fault α) : Except (Failure ε) α :=
  x.mapError fault

def ofRefusal {ε α : Type} (x : Except ε α) : Except (Failure ε) α :=
  x.mapError refused

end Failure

theorem mapM_eq_ok {α β : Type} {f : α → Except Fault β} {g : α → β} {xs : List α}
    (h : ∀ x ∈ xs, f x = .ok (g x)) : xs.mapM f = .ok (xs.map g) := by
  induction xs with
  | nil => rfl
  | cons x xs ih =>
      obtain ⟨hfirst, hrest⟩ := List.forall_mem_cons.mp h
      rw [List.mapM_cons, hfirst, ih hrest]
      rfl

end BankedStore
