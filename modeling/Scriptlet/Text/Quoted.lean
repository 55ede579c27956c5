import Scriptlet.Text.Extender
import Scriptlet.Text.Unprintable

namespace Scriptlet
namespace Text

/-!
Quoted names.  A name is written between double quotes so that it can be told apart from
its surroundings whatever characters it holds.
-/

/-- The lower-case hexadecimal numeral of a code point, without leading zeros. -/
def hexadecimal (n : Nat) : List Char :=
  Nat.toDigits 16 n

/-- One character inside quotes.  The quote, the backslash and four controls have short
escapes; anything else that would not show as itself is written by its code point. -/
def quotedChar (c : Char) : List Char :=
  if c = '\x00' then ['\\', '0']
  else if c = '\t' then ['\\', 't']
  else if c = '\n' then ['\\', 'n']
  else if c = '\r' then ['\\', 'r']
  else if c = '"' then ['\\', '"']
  else if c = '\\' then ['\\', '\\']
  else if isExtender c || isInvisible c || isUnprintable c then
    ['\\', 'u', '\x7b'] ++ hexadecimal c.toNat ++ ['\x7d']
  else [c]

def quoted (s : String) : String :=
  String.ofList ('"' :: s.toList.flatMap quotedChar ++ ['"'])

end Text
end Scriptlet
