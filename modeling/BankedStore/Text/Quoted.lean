import BankedStore.Text.Numeral
import BankedStore.Text.Unprintable
import BankedStore.Text.Combining
import BankedStore.Text.Ignorable

/-!
Quoting text inside a message.  A backslash escapes the quote, itself and the four controls that
have a letter; whatever else would not show plainly becomes its code point in hex between braces.
What remains stands for itself, so the quoted text is free of controls and can be read back.
-/

namespace BankedStore.Text

def needsCodePoint (c : Char) : Bool :=
  isUnprintable c || isCombining c || isIgnorable c

def escape (c : Char) : List Char :=
  if c = '\x00' then ['\\', '0']
  else if c = '\t' then ['\\', 't']
  else if c = '\n' then ['\\', 'n']
  else if c = '\r' then ['\\', 'r']
  else if c = '"' then ['\\', '"']
  else if c = '\\' then ['\\', '\\']
  else if needsCodePoint c then
    '\\' :: 'u' :: '\x7b' :: Nat.toDigits 16 c.toNat ++ ['\x7d']
  else [c]

def quote (s : String) : String :=
  String.ofList ('"' :: s.toList.flatMap escape ++ ['"'])

end BankedStore.Text
