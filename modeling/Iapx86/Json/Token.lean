import Iapx86.Text.Numeral

/-!
# JSON tokens

The first half of reading JSON: characters to tokens, one character at a time. What has been read
of the current token is carried along as a `Scan`; `Scan.next` says what a character does to it and
which tokens it ends or is. Nothing outside the grammar passes: no comments, no numeral with a
leading zero or a bare point, no control character in a string.

A string may name half of a surrogate pair by its number. It is then well formed and yet no text,
so the token of a string holds its text only if there is one.
-/

namespace Iapx86

namespace Json

/-- A token of JSON. -/
inductive Token where
  | openArray
  | closeArray
  | openObject
  | closeObject
  | comma
  | colon
  | null
  | bool (value : Bool)
  | number (numeral : List Char)
  /-- A string, with its text unless half of a surrogate pair stands in it alone. -/
  | string (text : Option String)
  deriving DecidableEq, Repr

/-- Whether a number is the first half of a surrogate pair. -/
def isHighSurrogate (n : Nat) : Bool := 0xD800 ≤ n && n ≤ 0xDBFF

/-- Whether a number is the second half of a surrogate pair. -/
def isLowSurrogate (n : Nat) : Bool := 0xDC00 ≤ n && n ≤ 0xDFFF

/-- The characters that a string spells by their numbers, if both halves of each surrogate pair are
there. -/
def charsOfUnits? : List Nat → Option (List Char)
  | [] => some []
  | [n] => if isHighSurrogate n || isLowSurrogate n then none else some [Char.ofNat n]
  | n :: m :: rest =>
      if isHighSurrogate n then
        if isLowSurrogate m then
          (charsOfUnits? rest).map
            (Char.ofNat (0x10000 + (n - 0xD800) * 0x400 + (m - 0xDC00)) :: ·)
        else none
      else if isLowSurrogate n then none
      else (charsOfUnits? (m :: rest)).map (Char.ofNat n :: ·)

/-- One or more digits, and what follows them. -/
def digits? (cs : List Char) : Option (List Char) :=
  if cs.head?.any Char.isDigit then some (cs.dropWhile Char.isDigit) else none

/-- The whole part of a numeral, and what follows it. A zero stands alone. -/
def wholePart? : List Char → Option (List Char)
  | '0' :: cs => some cs
  | cs => digits? cs

/-- What follows a fraction, which may be absent. -/
def fraction? : List Char → Option (List Char)
  | '.' :: cs => digits? cs
  | cs => some cs

/-- What follows an exponent, which may be absent. -/
def exponent? : List Char → Option (List Char)
  | 'e' :: cs | 'E' :: cs =>
      match cs with
      | '+' :: cs | '-' :: cs => digits? cs
      | cs => digits? cs
  | cs => some cs

/-- Whether the characters are a numeral. -/
def isNumeral (cs : List Char) : Bool :=
  let unsigned := match cs with
    | '-' :: cs => cs
    | cs => cs
  (wholePart? unsigned >>= fraction? >>= exponent?) = some []

/-- Whether a character can stand in a numeral. -/
def isNumeralChar (c : Char) : Bool := c.isDigit || c ∈ ['+', '-', '.', 'e', 'E']

/-- Whether a character may stand between tokens. -/
def isBlank (c : Char) : Bool := c ∈ [' ', '\n', '\t', '\r']

/-- The token that a word is. -/
def keyword? (word : List Char) : Option Token :=
  if word = "null".toList then some .null
  else if word = "true".toList then some (.bool true)
  else if word = "false".toList then some (.bool false)
  else none

/-- The token that the characters of a numeral are. -/
def number? (numeral : List Char) : Option Token :=
  if isNumeral numeral then some (.number numeral) else none

/-- What has been read of the current token, the latest first. The numbers of a string are those
of its characters, or of halves of surrogate pairs. -/
inductive Scan where
  | between
  | word (read : List Char)
  | numeral (read : List Char)
  | string (units : List Nat)
  /-- After a backslash. -/
  | escape (units : List Nat)
  /-- Among the four digits of a number. -/
  | unit (units : List Nat) (missing value : Nat)
  deriving DecidableEq, Repr

namespace Scan

/-- What a character outside of any token is or begins. -/
def start (c : Char) : Option (List Token × Scan) :=
  match c with
  | '[' => some ([.openArray], between)
  | ']' => some ([.closeArray], between)
  | '\x7b' => some ([.openObject], between)
  | '\x7d' => some ([.closeObject], between)
  | ',' => some ([.comma], between)
  | ':' => some ([.colon], between)
  | '"' => some ([], string [])
  | c =>
      if isBlank c then some ([], between)
      else if c.isDigit || c = '-' then some ([], numeral [c])
      else if c.isAlpha then some ([], word [c])
      else none

/-- Ends a token before a character that is not part of it. -/
def endBefore (token : Option Token) (c : Char) : Option (List Token × Scan) := do
  let token ← token
  let (tokens, scan) ← start c
  return (token :: tokens, scan)

/-- The character that a letter after a backslash stands for. -/
def escaped? : Char → Option Nat
  | '"' => some 0x22
  | '\\' => some 0x5C
  | '/' => some 0x2F
  | 'b' => some 0x08
  | 'f' => some 0x0C
  | 'n' => some 0x0A
  | 'r' => some 0x0D
  | 't' => some 0x09
  | _ => none

/-- Takes in one character: the tokens that it ends or is, and how the reading goes on. -/
def next (scan : Scan) (c : Char) : Option (List Token × Scan) :=
  match scan with
  | between => start c
  | word read =>
      if c.isAlpha then some ([], word (c :: read))
      else endBefore (keyword? read.reverse) c
  | numeral read =>
      if isNumeralChar c then some ([], numeral (c :: read))
      else endBefore (number? read.reverse) c
  | string units =>
      if c = '"' then
        some ([.string ((charsOfUnits? units.reverse).map String.ofList)], between)
      else if c = '\\' then some ([], escape units)
      else if c.toNat < 0x20 then none
      else some ([], string (c.toNat :: units))
  | escape units =>
      if c = 'u' then some ([], unit units 4 0)
      else (escaped? c).map fun n => ([], string (n :: units))
  | unit units missing value =>
      (Numeral.digitValue? 16 c).map fun digit =>
        let value := value * 16 + digit
        if missing ≤ 1 then ([], string (value :: units))
        else ([], unit units (missing - 1) value)

/-- The token that the text ends in, if the text may end there. -/
def finish : Scan → Option (List Token)
  | between => some []
  | word read => (keyword? read.reverse).map ([·])
  | numeral read => (number? read.reverse).map ([·])
  | string _ | escape _ | unit _ _ _ => none

/-- The tokens read, the latest first, together with those of the remaining text. -/
def tokens? (scan : Scan) (read : List Token) : List Char → Option (List Token)
  | [] => scan.finish.map (read.reverse ++ ·)
  | c :: cs => (scan.next c).bind fun (ended, scan) => scan.tokens? (ended.reverse ++ read) cs

end Scan

/-- The tokens of a text. -/
def tokens? (cs : List Char) : Option (List Token) := Scan.between.tokens? [] cs

end Json

end Iapx86
