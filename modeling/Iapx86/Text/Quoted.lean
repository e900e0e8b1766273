import Iapx86.Text.Hidden
import Iapx86.Text.Numeral

/-!
# Quoted text

A text between double quotes in which everything can be seen: quotes and backslashes are marked by
a backslash, the usual controls have a letter of their own, and every other character that does
not show is written by its number.
-/

namespace Iapx86

namespace Text

/-- A character within quotes. -/
def escape (c : Char) : List Char :=
  match c with
  | '"' => ['\\', '"']
  | '\\' => ['\\', '\\']
  | '\n' => ['\\', 'n']
  | '\r' => ['\\', 'r']
  | '\t' => ['\\', 't']
  | '\x00' => ['\\', '0']
  | c =>
      if isHidden c then ['\\', 'u', '\x7b'] ++ Numeral.digits 16 c.toNat ++ ['\x7d']
      else [c]

/-- The text between quotes. -/
def quoted (cs : List Char) : String := String.ofList ('"' :: cs.flatMap escape ++ ['"'])

end Text

end Iapx86
