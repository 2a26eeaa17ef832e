import BankedStore.Size

/-!
Reading unsigned numbers in a base up to 36, and writing them in base 16.  A number is an optional
plus sign and one or more digits of either case.  Reading goes from the left and stops at the first
fault: a character that is no digit is reported as such even where the digits before it are already
too many.
-/

namespace BankedStore.Numeral

inductive Error where
  | empty
  | invalidDigit
  | tooLarge
  deriving DecidableEq, Repr

def Error.message : Error → String
  | empty => "cannot parse integer from empty string"
  | invalidDigit => "invalid digit found in string"
  | tooLarge => "number too large to fit in target type"

def digit? (base : Nat) (c : Char) : Option Nat :=
  let value :=
    if '0' ≤ c ∧ c ≤ '9' then some (c.toNat - '0'.toNat)
    else if 'a' ≤ c ∧ c ≤ 'z' then some (c.toNat - 'a'.toNat + 10)
    else if 'A' ≤ c ∧ c ≤ 'Z' then some (c.toNat - 'A'.toNat + 10)
    else none
  value.filter (· < base)

def ofDigits? (base : Nat) (digits : List Char) : Option Nat :=
  digits.foldlM (fun value c => (digit? base c).map (base * value + ·)) 0

def readDigits (base value : Nat) : List Char → Except Error Nat
  | [] => .ok value
  | c :: rest =>
      match digit? base c with
      | none => .error .invalidDigit
      | some d =>
          if base * value + d < Size.limit then readDigits base (base * value + d) rest
          else .error .tooLarge

def read (base : Nat) : List Char → Except Error Nat
  | [] => .error .empty
  | ['+'] => .error .invalidDigit
  | '+' :: digits => readDigits base 0 digits
  | digits => readDigits base 0 digits

def hex (n : Nat) : String :=
  String.ofList (Nat.toDigits 16 n)

def prefixedHex (n : Nat) : String :=
  "0x" ++ hex n

end BankedStore.Numeral
