import BankedStore.Bits.Basic

/-!
What an entry of a store can hold.  `ElementType` lists the types and `Value` says what a value of
each is.  Floating-point numbers are their bit patterns and signed integers are in two's complement,
so a value is never rounded or normalized.  Every type has a stored width and a default value, which
is what a fresh store holds.
-/

namespace BankedStore

inductive IntWidth where
  | w8 | w16 | w32 | w64 | w128
  deriving DecidableEq, Repr

def IntWidth.bits : IntWidth → Nat
  | w8 => 8
  | w16 => 16
  | w32 => 32
  | w64 => 64
  | w128 => 128

structure Rgb where
  r : UInt8
  g : UInt8
  b : UInt8
  deriving DecidableEq, Repr

/-- The default colour is not black, so a fresh store differs from a cleared one. -/
instance : Inhabited Rgb := ⟨⟨0xAA, 0x55, 0x0F⟩⟩

/-- A tag of twelve bits.  A value keeps the higher bits of `raw`; storing it drops them. -/
structure Tag12 where
  raw : UInt16
  deriving DecidableEq, Repr

instance : Inhabited Tag12 := ⟨⟨0x5A5⟩⟩

/-- The list is closed: a type from outside of it, packed in a way of its own, is not covered. -/
inductive ElementType where
  | bool
  | uint (width : IntWidth)
  | sint (width : IntWidth)
  | float32
  | float64
  | rgb
  | tag12
  | array (element : ElementType) (count : Nat)
  | pair (first second : ElementType)
  | triple (first second third : ElementType)
  deriving DecidableEq, Repr

namespace ElementType

def width : ElementType → Nat
  | bool => 1
  | uint w => w.bits
  | sint w => w.bits
  | float32 => 32
  | float64 => 64
  | rgb => 24
  | tag12 => 12
  | array e n => e.width * n
  | pair a b => a.width + b.width
  | triple a b c => a.width + b.width + c.width

end ElementType

def Value : ElementType → Type
  | .bool => Bool
  | .uint w => BitVec w.bits
  | .sint w => BitVec w.bits
  | .float32 => BitVec 32
  | .float64 => BitVec 64
  | .rgb => Rgb
  | .tag12 => Tag12
  | .array e n => Vector (Value e) n
  | .pair a b => Value a × Value b
  | .triple a b c => Value a × Value b × Value c

namespace Value

def decEq : (t : ElementType) → DecidableEq (Value t)
  | .bool => inferInstanceAs (DecidableEq Bool)
  | .uint w => inferInstanceAs (DecidableEq (BitVec w.bits))
  | .sint w => inferInstanceAs (DecidableEq (BitVec w.bits))
  | .float32 => inferInstanceAs (DecidableEq (BitVec 32))
  | .float64 => inferInstanceAs (DecidableEq (BitVec 64))
  | .rgb => inferInstanceAs (DecidableEq Rgb)
  | .tag12 => inferInstanceAs (DecidableEq Tag12)
  | .array e n =>
      have := decEq e
      inferInstanceAs (DecidableEq (Vector (Value e) n))
  | .pair a b =>
      have := decEq a
      have := decEq b
      inferInstanceAs (DecidableEq (Value a × Value b))
  | .triple a b c =>
      have := decEq a
      have := decEq b
      have := decEq c
      inferInstanceAs (DecidableEq (Value a × Value b × Value c))

instance (t : ElementType) : DecidableEq (Value t) := decEq t

def default : (t : ElementType) → Value t
  | .bool => false
  | .uint w => (0 : BitVec w.bits)
  | .sint w => (0 : BitVec w.bits)
  | .float32 => (0 : BitVec 32)
  | .float64 => (0 : BitVec 64)
  | .rgb => (Inhabited.default : Rgb)
  | .tag12 => (Inhabited.default : Tag12)
  | .array e n => Vector.replicate n (default e)
  | .pair a b => (default a, default b)
  | .triple a b c => (default a, default b, default c)

instance (t : ElementType) : Inhabited (Value t) := ⟨default t⟩

end Value

end BankedStore
