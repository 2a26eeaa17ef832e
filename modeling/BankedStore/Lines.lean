import BankedStore.Fault
import BankedStore.Rejection

/-!
Plain arrays of lines, without banks or slices.  `LineArray` is a run of lines.  `LineGrid`
arranges lines as sets of ways; it is addressed by set and way, and its layout only decides in which
order the lines are stored.
-/

namespace BankedStore

structure LineArray (α : Type) where
  lines : Array α
  deriving DecidableEq, Repr

namespace LineArray

variable {α : Type}

def new [Inhabited α] (lines : Nat) : Except Rejection (LineArray α) :=
  if lines = 0 then .error .zeroEntries else .ok ⟨Array.replicate lines default⟩

def size (a : LineArray α) : Nat :=
  a.lines.size

def isEmpty (a : LineArray α) : Bool :=
  a.lines.isEmpty

def get? (a : LineArray α) (i : Nat) : Option α :=
  a.lines[i]?

def set? (a : LineArray α) (i : Nat) (line : α) : Option (LineArray α) :=
  if i < a.size then some ⟨a.lines.setIfInBounds i line⟩ else none

def get (a : LineArray α) (i : Nat) : Except Fault α :=
  match a.get? i with
  | some line => .ok line
  | none => .error .indexOutOfBounds

def set (a : LineArray α) (i : Nat) (line : α) : Except Fault (LineArray α) :=
  match a.set? i line with
  | some a => .ok a
  | none => .error .indexOutOfBounds

end LineArray

inductive Layout where
  | setMajor
  | wayMajor
  deriving DecidableEq, Repr

structure LineGrid (α : Type) where
  sets : Nat
  ways : Nat
  layout : Layout
  lines : Array α
  deriving DecidableEq, Repr

namespace LineGrid

variable {α : Type}

/-- Storage is taken to be unlimited, so any number of lines that splits evenly makes a grid. -/
def new [Inhabited α] (lines ways : Nat) (layout : Layout) : Except Rejection (LineGrid α) :=
  if lines = 0 then .error .zeroEntries
  else if ways = 0 then .error .zeroWays
  else if lines % ways ≠ 0 then .error (.unevenWays lines ways)
  else .ok ⟨lines / ways, ways, layout, Array.replicate lines default⟩

def size (g : LineGrid α) : Nat :=
  g.lines.size

def isEmpty (g : LineGrid α) : Bool :=
  g.lines.isEmpty

def position? (g : LineGrid α) (set way : Nat) : Option Nat :=
  if set < g.sets ∧ way < g.ways then
    some (match g.layout with
      | .setMajor => set * g.ways + way
      | .wayMajor => way * g.sets + set)
  else none

def get? (g : LineGrid α) (set way : Nat) : Option α := do
  g.lines[← g.position? set way]?

def set? (g : LineGrid α) (set way : Nat) (line : α) : Option (LineGrid α) := do
  let position ← g.position? set way
  some { g with lines := g.lines.setIfInBounds position line }

def get (g : LineGrid α) (set way : Nat) : Except Fault α :=
  match g.get? set way with
  | some line => .ok line
  | none => .error (.lineOutOfRange set way g.sets g.ways)

def set (g : LineGrid α) (set way : Nat) (line : α) : Except Fault (LineGrid α) :=
  match g.set? set way line with
  | some g => .ok g
  | none => .error (.lineOutOfRange set way g.sets g.ways)

end LineGrid

end BankedStore
