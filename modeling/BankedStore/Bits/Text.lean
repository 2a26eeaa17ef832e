import BankedStore.Bits.Basic
import BankedStore.Text.Numeral

/-!
The written form of a bit vector: its width in decimal, a quote, the letter `h`, and as many hex
digits as the width needs, at least one.  `ofText?` reads that form back.
-/

namespace BankedStore.Bits

def hexLength (width : Nat) : Nat :=
  max 1 ((width + 3) / 4)

def nibble (b : Bits) (i : Nat) : Nat :=
  if h : 4 * i ≤ b.width then
    (b.chunk (4 * i) (min 4 (b.width - 4 * i)) (by omega)).toNat
  else 0

def hexDigits (b : Bits) : List Char :=
  (List.range (hexLength b.width)).reverse.map fun i => (b.nibble i).digitChar

def hex (b : Bits) : String :=
  String.ofList b.hexDigits

def prefixedHex (b : Bits) : String :=
  "0x" ++ b.hex

def text (b : Bits) : String :=
  toString b.width ++ "'h" ++ b.hex

def describe (b : Bits) : String :=
  "Bits(" ++ b.text ++ ")"

instance : ToString Bits := ⟨text⟩

def ofText? (s : String) : Option Bits := do
  let (width, rest) := s.toList.span (· ≠ '\'')
  match rest with
  | '\'' :: 'h' :: digits =>
      let width ← Numeral.ofDigits? 10 width
      let value ← Numeral.ofDigits? 16 digits
      if digits.length = hexLength width ∧ value >>> width = 0 then some (ofNat width value)
      else none
  | _ => none

end BankedStore.Bits
