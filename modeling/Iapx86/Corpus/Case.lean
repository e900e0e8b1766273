import Iapx86.Corpus.Mnemonic
import Iapx86.Decoder
import Iapx86.Text.Quoted

/-!
# Cases of a corpus

An encoding and the line of assembly text that another disassembler wrote for it. A case passes
when the encoding is one instruction, no byte more and no byte less, and the line names its
operation; `Case.check` gives the first reason why it does not.
-/

namespace Iapx86

namespace Corpus

/-- An encoding and the assembly text for it. -/
structure Case where
  name : String
  bytes : List UInt8
  deriving DecidableEq, Repr

/-- Why a case does not pass. -/
inductive Mismatch where
  /-- The bytes, this many, end before the instruction does. -/
  | incomplete (given : Nat)
  /-- The bytes encode no instruction. -/
  | undefined
  /-- The instruction ends before the bytes do. -/
  | length (expected actual : Nat)
  /-- The encoding is not one of the opcode that its file is named for. -/
  | opcode (stem : String)
  /-- The operation has another name. -/
  | mnemonic (expected actual : String)
  deriving DecidableEq, Repr

/-- What is said of a case that does not pass. -/
def Mismatch.message : Mismatch → String
  | incomplete given =>
      "decoder needs more than the " ++ Numeral.decimal given ++ " bytes given"
  | undefined => "rejected as undefined"
  | length expected actual =>
      "decoded " ++ Numeral.decimal actual ++ " bytes, expected " ++ Numeral.decimal expected
  | opcode stem => "encoding does not start with opcode " ++ stem
  | mnemonic expected actual =>
      "decoded as " ++ Text.quoted actual.toList ++ ", expected " ++ Text.quoted expected.toList

namespace Case

/-- Whether a name fits an instruction. What is handed over to the coprocessor goes by the
coprocessor's own names, which begin with an `f`. -/
def nameFits (expected : String) (i : Instruction) : Bool :=
  if i.operation = .esc then expected.toList.head? = some 'f' || expected = "esc"
  else expected = i.mnemonic

/-- Checks a case, and gives the first reason why it does not pass. -/
def check (model : Model) (c : Case) : Except Mismatch Unit :=
  match decodeOne model c.bytes with
  | .needMore _ => .error (.incomplete c.bytes.length)
  | .complete length i =>
      if i.isUndefined then .error .undefined
      else if length ≠ c.bytes.length then .error (.length c.bytes.length length)
      else if nameFits (expectedMnemonic c.name) i then .ok ()
      else .error (.mnemonic (expectedMnemonic c.name) i.mnemonic)

end Case

end Corpus

end Iapx86
