import Iapx86.Encoding.ModRm
import Iapx86.Text.Numeral

/-!
# Names of corpus files

A corpus file is named for the opcode of its cases: one or two bytes in hexadecimal, and behind a
point the member of the group where the opcode is shared. `Stem.covers` says whether an encoding
has that opcode, once the bytes before the opcode are skipped.
-/

namespace Iapx86

namespace Corpus

/-- The opcode that a corpus file is named for. -/
structure Stem where
  opcode : List UInt8
  /-- The `reg` field of the addressing byte, where a file is for one member of a group. -/
  subOpcode : Option Nat := none
  deriving DecidableEq, Repr

/-- What stands before the first point and what stands behind it. -/
def splitAtPoint : List Char → List Char × Option (List Char)
  | [] => ([], none)
  | '.' :: cs => ([], some cs)
  | c :: cs =>
      let (before, behind) := splitAtPoint cs
      (c :: before, behind)

/-- The byte that two digits spell. They are read like any other number, so that a sign may stand
for the first of them. -/
def byteOfDigits? (high low : Char) : Option UInt8 :=
  (Numeral.read 16 256 [high, low]).toOption.map Nat.toUInt8

namespace Stem

/-- The one or two bytes of an opcode. -/
def opcodeOfDigits? : List Char → Option (List UInt8)
  | [a, b] => (byteOfDigits? a b).map ([·])
  | [a, b, c, d] => do
      let first ← byteOfDigits? a b
      let second ← byteOfDigits? c d
      return [first, second]
  | _ => none

/-- Reads the name of a corpus file, without its extension. -/
def ofText? (text : String) : Option Stem := do
  let (before, behind) := splitAtPoint text.toList
  let opcode ← opcodeOfDigits? before
  match behind with
  | none => return { opcode }
  | some digits =>
      let subOpcode ← (Numeral.read 10 8 digits).toOption
      return { opcode, subOpcode := some subOpcode }

/-- The bytes that may stand before an opcode. -/
def modifierBytes : List UInt8 := [0x26, 0x2E, 0x36, 0x3E, 0x64, 0x65, 0x67, 0xF0, 0xF2, 0xF3]

/-- Whether an encoding has the opcode and, where one is named, the member of the group. -/
def covers (stem : Stem) (bytes : List UInt8) : Bool :=
  match stem.opcode.isPrefixOf? (bytes.dropWhile (· ∈ modifierBytes)) with
  | none => false
  | some rest =>
      match stem.subOpcode with
      | none => true
      | some reg => rest.head?.any fun byte => (ModRm.ofByte byte).reg = reg

end Stem

end Corpus

end Iapx86
