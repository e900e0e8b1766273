import Iapx86.Text.Numeral

/-!
# Writing JSON

Strings with the controls escaped and all else as it is, and the two layouts of objects and arrays:
on one line, or with every element on a line of its own, two blanks further in than what it is part
of.
-/

namespace Iapx86

namespace Json

/-- A character within a string. -/
def escape (c : Char) : List Char :=
  match c with
  | '"' => ['\\', '"']
  | '\\' => ['\\', '\\']
  | '\x08' => ['\\', 'b']
  | '\x0c' => ['\\', 'f']
  | '\n' => ['\\', 'n']
  | '\r' => ['\\', 'r']
  | '\t' => ['\\', 't']
  | c =>
      if c.toNat < 0x20 then ['\\', 'u', '0', '0'] ++ Numeral.byteDigits c.toNat.toUInt8
      else [c]

/-- A string. -/
def stringText (s : String) : String := String.ofList ('"' :: s.toList.flatMap escape ++ ['"'])

/-- A truth value. -/
def boolText (b : Bool) : String := if b then "true" else "false"

/-- An object on one line, from its keys and the texts of their values. -/
def objectText (members : List (String × String)) : String :=
  "\x7b" ++ ",".intercalate (members.map fun (key, value) => stringText key ++ ":" ++ value)
    ++ "\x7d"

/-- Elements on lines of their own, `depth` steps in, between the brackets that close on a line
one step back. Brackets with nothing between them stay together. -/
def blockText (depth : Nat) (opening closing : String) (elements : List String) : String :=
  let newline (depth : Nat) := "\n" ++ String.ofList (List.replicate (2 * depth) ' ')
  match elements with
  | [] => opening ++ closing
  | _ =>
      opening ++ newline depth ++ ("," ++ newline depth).intercalate elements
        ++ newline (depth - 1) ++ closing

/-- An object with every member on a line of its own. -/
def objectBlock (depth : Nat) (members : List (String × String)) : String :=
  blockText depth "\x7b" "\x7d"
    (members.map fun (key, value) => stringText key ++ ": " ++ value)

/-- An array with every item on a line of its own. -/
def arrayBlock (depth : Nat) (items : List String) : String := blockText depth "[" "]" items

end Json

end Iapx86
