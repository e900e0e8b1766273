import Iapx86.Operand
import Iapx86.Operation

/-!
# Instructions

An instruction is made of what its leading bytes ask for, `Prefixes`, and of what the opcode and
the bytes after it say, `Body`. The two parts come from different bytes and no field belongs to
both. The default instruction has nothing in it: it stands for bytes that encode no instruction.
-/

namespace Iapx86

/-- How a string operation is repeated. -/
inductive Repetition where
  /-- While the operands are equal, where the operation compares at all. -/
  | whileEqual
  | whileNotEqual
  deriving DecidableEq, Repr

/-- What the bytes before the opcode ask for. -/
structure Prefixes where
  segmentOverride : Option Segment := none
  repetition : Option Repetition := none
  lock : Bool := false
  addressSize : AddressSize := .bits16
  deriving DecidableEq, Repr, Inhabited

/-- What the opcode and the bytes after it say. -/
structure Body where
  operation : Operation := .undefined
  source : Option Operand := none
  destination : Option Operand := none
  width : Width := .implied
  sib : ScaleIndexBase := {}
  displacement : Int16 := 0
  /-- An immediate value, the address of an input or output, the segment of a far pointer, or the
  distance of a shift by one. -/
  operand : UInt16 := 0
  deriving DecidableEq, Repr, Inhabited

/-- An instruction. -/
structure Instruction extends Prefixes, Body where
  deriving DecidableEq, Repr, Inhabited

namespace Instruction

/-- What bytes stand for that encode no instruction. -/
def undefined : Instruction := {}

/-- Whether the bytes encode no instruction. -/
def isUndefined (i : Instruction) : Bool := i.operation = .undefined

@[simp] theorem isUndefined_undefined : undefined.isUndefined = true := rfl

end Instruction

namespace Body

/-- The address of the operand in memory, when the displacement alone gives it. -/
def directAddress? (b : Body) : Option UInt16 :=
  if b.source = some .directAddress ∨ b.destination = some .directAddress then
    some b.displacement.toUInt16
  else
    none

/-- Segment and offset of the target, when the instruction calls or jumps to another segment and
the target is in the instruction. -/
def farTarget? (b : Body) : Option (UInt16 × UInt16) :=
  if (b.operation = .callFar ∨ b.operation = .jmpFar) ∧ b.source = some .immediate then
    some (b.operand, b.displacement.toUInt16)
  else
    none

/-- The name of the instruction in assembly text. String operations on bytes end in `b` and those
on words in `w`. -/
def mnemonic (b : Body) : String :=
  if b.operation.isString then
    b.operation.mnemonic ++ (if b.width = .byte then "b" else "w")
  else
    b.operation.mnemonic

end Body

end Iapx86
