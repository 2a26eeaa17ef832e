import BankedStore.Element.Basic

/-!
Values as bit vectors.  `pack` gives exactly the stored width of the type, and composite values put
their first part in the low bits.  `unpack` reads a value back.  It insists on the exact width, save
that a colour is read from the low 24 bits of any vector that has them and a tag from the low twelve
bits of any vector.
-/

namespace BankedStore.Value

def pack : (t : ElementType) → Value t → Bits
  | .bool, (v : Bool) => Bits.ofUInt64 1 v.toUInt64
  | .uint w, (v : BitVec w.bits) => Bits.ofBitVec128 w.bits (v.setWidth 128)
  | .sint w, (v : BitVec w.bits) => Bits.ofBitVec128 w.bits (v.setWidth 128)
  | .float32, (v : BitVec 32) => Bits.ofBitVec128 32 (v.setWidth 128)
  | .float64, (v : BitVec 64) => Bits.ofBitVec128 64 (v.setWidth 128)
  | .rgb, (v : Rgb) =>
      Bits.concat ([v.r, v.g, v.b].map fun c => Bits.ofUInt64 8 c.toUInt64)
  | .tag12, (v : Tag12) => Bits.ofUInt64 12 (v.raw &&& 0xFFF).toUInt64
  | .array e _, (v : Vector (Value e) _) => Bits.concat (v.toList.map (pack e))
  | .pair a b, (x, y) => Bits.concat [pack a x, pack b y]
  | .triple a b c, (x, y, z) => Bits.concat [pack a x, pack b y, pack c z]

def expectWidth (b : Bits) (width : Nat) : Except Fault Unit :=
  if b.width = width then .ok () else .error (.wordWidthMismatch b.width width)

def unpackInt (width : Nat) (b : Bits) : Except Fault (BitVec width) := do
  expectWidth b width
  return b.toBitVec128.setWidth width

def unpackByte (b : Bits) (low : Nat) : Except Fault UInt8 := do
  return ⟨← unpackInt 8 (← b.range low 8)⟩

def unpack : (t : ElementType) → Bits → Except Fault (Value t)
  | .bool, b => do
      expectWidth b 1
      b.bit 0
  | .uint w, b => unpackInt w.bits b
  | .sint w, b => unpackInt w.bits b
  | .float32, b => unpackInt 32 b
  | .float64, b => unpackInt 64 b
  | .rgb, b => do
      let r ← unpackByte b 0
      let g ← unpackByte b 8
      return (⟨r, g, ← unpackByte b 16⟩ : Rgb)
  | .tag12, b => .ok (⟨b.toUInt64.toUInt16 &&& 0xFFF⟩ : Tag12)
  | .array e n, b => do
      expectWidth b (e.width * n)
      Vector.ofFnM fun i : Fin n => do unpack e (← b.range (i * e.width) e.width)
  | .pair s t, b => do
      expectWidth b (s.width + t.width)
      let x ← unpack s (← b.range 0 s.width)
      return (x, ← unpack t (← b.range s.width t.width))
  | .triple s t u, b => do
      expectWidth b (s.width + t.width + u.width)
      let x ← unpack s (← b.range 0 s.width)
      let y ← unpack t (← b.range s.width t.width)
      return (x, y, ← unpack u (← b.range (s.width + t.width) u.width))

end BankedStore.Value
