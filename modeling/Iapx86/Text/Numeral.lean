/-!
# Numerals

Whole numbers in positional notation to a base up to sixteen: the digits of a number without
leading zeros, and the reader that accepts any digits, in either case, after an optional plus
sign. The reader goes from left to right and stops at the first thing wrong: a character that is
no digit, or a digit that makes the number reach its limit.
-/

namespace Iapx86

namespace Numeral

/-- The lower-case digits of a number, the highest first. -/
def digits (base n : Nat) : List Char := Nat.toDigits base n

/-- A number in decimal notation. -/
def decimal (n : Nat) : String := String.ofList (digits 10 n)

/-- A number in hexadecimal notation, marked as such. -/
def hexadecimal (n : Nat) : String := "0x" ++ String.ofList (digits 16 n)

/-- A number in hexadecimal notation, with its sign. -/
def signedHexadecimal (n : Int) : String :=
  if n < 0 then "-" ++ hexadecimal n.natAbs else "+" ++ hexadecimal n.natAbs

/-- Characters put in front to make up the width. -/
def padLeft (width : Nat) (c : Char) (cs : List Char) : List Char :=
  List.replicate (width - cs.length) c ++ cs

/-- Blanks put behind to make up the width. -/
def padRight (width : Nat) (cs : List Char) : List Char :=
  cs ++ List.replicate (width - cs.length) ' '

/-- The two lower-case hexadecimal digits of a byte. -/
def byteDigits (b : UInt8) : List Char := padLeft 2 '0' (digits 16 b.toNat)

/-- The value of a digit in either case. -/
def digitValue? (base : Nat) (c : Char) : Option Nat :=
  let n := c.toNat
  let value : Option Nat :=
    if '0'.toNat ≤ n ∧ n ≤ '9'.toNat then some (n - '0'.toNat)
    else if 'a'.toNat ≤ n ∧ n ≤ 'z'.toNat then some (n - 'a'.toNat + 10)
    else if 'A'.toNat ≤ n ∧ n ≤ 'Z'.toNat then some (n - 'A'.toNat + 10)
    else none
  value.filter (· < base)

/-- Why a text is no numeral. -/
inductive Error where
  | empty
  | invalidDigit
  | tooLarge
  deriving DecidableEq, Repr

/-- What is said of a text that is no numeral. -/
def Error.message : Error → String
  | empty => "cannot parse integer from empty string"
  | invalidDigit => "invalid digit found in string"
  | tooLarge => "number too large to fit in target type"

/-- Reads the digits that follow those of `value`, of a number below the limit. -/
def readDigits (base limit value : Nat) : List Char → Except Error Nat
  | [] => .ok value
  | c :: cs =>
      match digitValue? base c with
      | none => .error .invalidDigit
      | some digit =>
          if value * base + digit < limit then readDigits base limit (value * base + digit) cs
          else .error .tooLarge

/-- Reads a number below the limit. A sign alone is no digit. -/
def read (base limit : Nat) (cs : List Char) : Except Error Nat :=
  match cs with
  | [] => .error .empty
  | ['+'] => .error .invalidDigit
  | '+' :: cs => readDigits base limit 0 cs
  | cs => readDigits base limit 0 cs

end Numeral

end Iapx86
