import Iapx86.Instruction

/-!
# Trailing bytes

After the opcode and the bytes that say how memory is addressed come a displacement and an
operand, each in little-endian order and each possibly absent. The bytes are gathered in a 64-bit
register that they enter at the top, one after the other, so that the last byte received is always
the highest: the operand, which comes last, is read off the top, and what lies below it is the
displacement.
-/

namespace Iapx86

/-- The bytes that the displacement takes. -/
inductive DisplacementField where
  | absent
  | byte
  | word
  deriving DecidableEq, Repr, Inhabited

/-- The number of bytes of a displacement. -/
def DisplacementField.size : DisplacementField → Nat
  | absent => 0
  | byte => 1
  | word => 2

/-- The bytes that the operand takes. -/
inductive OperandField where
  | absent
  | byte
  | word
  /-- A far pointer: the offset, which is taken for the displacement, and then the segment. -/
  | farPointer
  deriving DecidableEq, Repr, Inhabited

namespace OperandField

/-- The number of bytes of an operand. -/
def size : OperandField → Nat
  | absent => 0
  | byte => 1
  | word => 2
  | farPointer => 4

/-- The operand that is as wide as the data of the operation. -/
def ofWidth : Width → OperandField
  | .byte => byte
  | .word => word
  | .implied | .dword => absent

end OperandField

/-- The trailing bytes of an instruction: first the displacement and then the operand. -/
structure TrailingLayout where
  displacement : DisplacementField := .absent
  operand : OperandField := .absent
  deriving DecidableEq, Repr, Inhabited

/-- The number of trailing bytes. -/
def TrailingLayout.size (layout : TrailingLayout) : Nat :=
  layout.displacement.size + layout.operand.size

/-- The trailing bytes received so far, the last of them highest. -/
structure TrailingRegister where
  bits : UInt64 := 0
  deriving DecidableEq, Repr, Inhabited

namespace TrailingRegister

/-- Takes in one more byte at the top. -/
def push (r : TrailingRegister) (byte : UInt8) : TrailingRegister :=
  ⟨(r.bits >>> 8) + (byte.toUInt64 <<< 56)⟩

/-- The last byte received. -/
def lastByte (r : TrailingRegister) : UInt8 := (r.bits >>> 56).toUInt8

/-- The word that the last two bytes received make. -/
def lastWord (r : TrailingRegister) : UInt16 := (r.bits >>> 48).toUInt16

/-- What was received before the last byte. -/
def dropByte (r : TrailingRegister) : TrailingRegister := ⟨r.bits <<< 8⟩

/-- What was received before the last two bytes. -/
def dropWord (r : TrailingRegister) : TrailingRegister := ⟨r.bits <<< 16⟩

end TrailingRegister

/-- A byte as a word with the sign of the byte. -/
def signExtend (byte : UInt8) : Int16 := byte.toInt8.toInt16

namespace Body

/-- Whether an operand of one byte is a signed number that stands for a word. The address of an
input or output has no sign, nor has the number of places to shift by. -/
def signsByteOperand (b : Body) : Bool :=
  b.width = .word && !b.operation.isInputOutput && !b.operation.isShift

/-- Reads a displacement of the given form off the top of the register. -/
def withDisplacement (b : Body) (field : DisplacementField) (r : TrailingRegister) : Body :=
  match field with
  | .absent => b
  | .byte => { b with displacement := signExtend r.lastByte }
  | .word => { b with displacement := r.lastWord.toInt16 }

/-- Reads operand and displacement, in this order, off the top of the register. -/
def withTrailing (b : Body) (layout : TrailingLayout) (r : TrailingRegister) : Body :=
  match layout.operand with
  | .absent => b.withDisplacement layout.displacement r
  | .byte =>
      let operand := if b.signsByteOperand then (signExtend r.lastByte).toUInt16
        else r.lastByte.toUInt16
      { b with operand }.withDisplacement layout.displacement r.dropByte
  | .word => { b with operand := r.lastWord }.withDisplacement layout.displacement r.dropWord
  | .farPointer => { b with operand := r.lastWord }.withDisplacement .word r.dropWord

end Body

end Iapx86
