import Iapx86.Encoding.Trailing
import Iapx86.Model

/-!
# The addressing byte

Many opcodes are followed by a byte of three fields. `mode` and `rm` together name a register or
an address in memory; `reg` names a register too, or, where one opcode serves a whole group of
operations, it picks the operation. `ModRm.resolve?` puts both halves together: `ModRmForm.select?`
says what the instruction is, given the operand that `mode` and `rm` name, and that operand brings
the registers and the size of the displacement with it. There is no instruction where a group has
no member, where an address is asked for and a register is named, and where the model does not
have the segment register.
-/

namespace Iapx86

/-- The three fields of an addressing byte. -/
structure ModRm where
  mode : Nat
  reg : Nat
  rm : Nat
  deriving DecidableEq, Repr, Inhabited

namespace ModRm

/-- Splits an addressing byte: two bits of mode, three bits each of `reg` and `rm`. -/
def ofByte (byte : UInt8) : ModRm :=
  ⟨byte.toNat / 64, byte.toNat / 8 % 8, byte.toNat % 8⟩

theorem mode_ofByte_lt (byte : UInt8) : (ofByte byte).mode < 4 := by
  have := byte.toNat_lt
  simp only [ofByte]
  omega

theorem reg_ofByte_lt (byte : UInt8) : (ofByte byte).reg < 8 := by
  simp only [ofByte]
  omega

theorem rm_ofByte_lt (byte : UInt8) : (ofByte byte).rm < 8 := by
  simp only [ofByte]
  omega

/-- Whether the operand is a register and not in memory. -/
def isRegister (m : ModRm) : Bool := m.mode = 3

end ModRm

/-- The operand that `mode` and `rm` name, with what it takes to address it. -/
structure EffectiveOperand where
  operand : Option Operand
  sib : ScaleIndexBase := {}
  displacement : DisplacementField := .absent
  deriving DecidableEq, Repr, Inhabited

/-- The registers that the address in memory is the sum of. -/
def addressRegisters : Nat → ScaleIndexBase
  | 0 => { base := some .bx, index := some .si }
  | 1 => { base := some .bx, index := some .di }
  | 2 => { base := some .bp, index := some .si }
  | 3 => { base := some .bp, index := some .di }
  | 4 => { index := some .si }
  | 5 => { index := some .di }
  | 6 => { index := some .bp }
  | _ => { index := some .bx }

/-- The operand that `mode` and `rm` name. Mode 3 is a register. The other modes are addresses
with no displacement, a byte or a word; without displacement, `bp` alone is no address, and its
place is taken by the address that a word gives. -/
def ModRm.effectiveOperand (m : ModRm) (width : Width) : EffectiveOperand :=
  match m.mode with
  | 0 =>
      if m.rm = 6 then { operand := some .directAddress, displacement := .word }
      else { operand := some .indirect, sib := addressRegisters m.rm }
  | 1 =>
      { operand := some .indirect, sib := addressRegisters m.rm, displacement := .byte }
  | 2 =>
      { operand := some .indirect, sib := addressRegisters m.rm, displacement := .word }
  | _ => { operand := (Register.ofIndex? width m.rm).map .register }

/-- The segment register that a field names. The last two came with the 80386. -/
def Segment.ofIndex? (model : Model) : Nat → Option Segment
  | 0 => some .es
  | 1 => some .cs
  | 2 => some .ss
  | 3 => some .ds
  | 4 => if Model.i80386 ≤ model then some .fs else none
  | 5 => if Model.i80386 ≤ model then some .gs else none
  | _ => none

/-- Where a shift takes its distance from. -/
inductive ShiftCount where
  | one
  | cl
  | immediate
  deriving DecidableEq, Repr

/-- How the fields of an addressing byte become the operands of an instruction. In the groups,
`reg` picks the operation. -/
inductive ModRmForm where
  /-- To register or memory, from a register. -/
  | toMemory (operation : Operation)
  /-- To a register, from register or memory. -/
  | toRegister (operation : Operation)
  /-- To a register, from memory only. -/
  | fromAddress (operation : Operation)
  /-- To a register, from register or memory and an immediate value. -/
  | toRegisterImmediate (operation : Operation) (immediate : OperandField)
  /-- To a segment register. -/
  | toSegment
  /-- From a segment register. -/
  | fromSegment
  /-- The group of additions, comparisons and bitwise operations with an immediate value. -/
  | arithmetic (immediate : OperandField)
  /-- The group of shifts and rotations. -/
  | shift (count : ShiftCount)
  /-- The group of operations on one operand. -/
  | unary
  /-- The group of increment and decrement. -/
  | incDec
  /-- The group from increment to push, with the indirect calls and jumps. -/
  | incToPush
  /-- Pop, a group of one. -/
  | pop
  /-- Loading an immediate value, a group of one. -/
  | movImmediate
  /-- Handing over to the coprocessor, which alone understands `reg`. -/
  | coprocessor
  /-- The group of the local descriptor table and the task register. -/
  | localDescriptor
  /-- The group of the descriptor tables and the machine status word. -/
  | globalDescriptor
  deriving DecidableEq, Repr

/-- The members of the arithmetic group. -/
def arithmeticGroup : Nat → Operation
  | 0 => .add
  | 1 => .or
  | 2 => .adc
  | 3 => .sbb
  | 4 => .and
  | 5 => .sub
  | 6 => .xor
  | _ => .cmp

/-- The members of the group of shifts and rotations. -/
def shiftGroup? : Nat → Option Operation
  | 0 => some .rol
  | 1 => some .ror
  | 2 => some .rcl
  | 3 => some .rcr
  | 4 => some .sal
  | 5 => some .shr
  | 7 => some .sar
  | _ => none

/-- The members of the group of the local descriptor table. -/
def localDescriptorGroup? : Nat → Option Operation
  | 0 => some .sldt
  | 1 => some .str
  | 2 => some .lldt
  | 3 => some .ltr
  | 4 => some .verr
  | 5 => some .verw
  | _ => none

/-- The members of the group of the global descriptor tables. The tables themselves are only ever
loaded from memory and stored to it. -/
def globalDescriptorGroup? (isRegister : Bool) : Nat → Option Operation
  | 0 => if isRegister then none else some .sgdt
  | 2 => if isRegister then none else some .lgdt
  | 4 => some .smsw
  | 6 => some .lmsw
  | _ => none

/-- The instruction that an opcode of the given form makes of an addressing byte whose `mode` and
`rm` name the operand `place`, together with the size of the operand that follows. What it takes
to address `place` is left out. -/
def ModRmForm.select? (model : Model) (width : Width) (m : ModRm) (place : Option Operand) :
    ModRmForm → Option (Body × OperandField)
  | toMemory operation =>
      some ({ operation, width, source := register, destination := place }, .absent)
  | toRegister operation =>
      some ({ operation, width, source := place, destination := register }, .absent)
  | fromAddress operation =>
      if m.isRegister then none
      else some ({ operation, width, source := place, destination := register }, .absent)
  | toRegisterImmediate operation immediate =>
      some ({ operation, width, source := place, destination := register }, immediate)
  | toSegment =>
      (Segment.ofIndex? model m.reg).map fun s =>
        ({ operation := .mov, width, source := place, destination := some (.segment s) }, .absent)
  | fromSegment =>
      (Segment.ofIndex? model m.reg).map fun s =>
        ({ operation := .mov, width, source := some (.segment s), destination := place }, .absent)
  | arithmetic immediate =>
      some ({ operation := arithmeticGroup m.reg, width, source := some .immediate,
              destination := place }, immediate)
  | shift count =>
      (shiftGroup? m.reg).map fun operation =>
        match count with
        | .one => ({ operation, width, source := some .immediate, destination := place,
                     operand := 1 }, .absent)
        | .cl => ({ operation, width, source := some (.register .cx), destination := place },
                    .absent)
        | .immediate => ({ operation, width, source := some .immediate, destination := place },
                    .byte)
  | unary =>
      match m.reg with
      | 0 => some ({ operation := .test, width, source := some .immediate, destination := place },
                    .ofWidth width)
      | 2 => some ({ operation := .not, width, source := place, destination := place }, .absent)
      | 3 => some ({ operation := .neg, width, source := place, destination := place }, .absent)
      | 4 => some ({ operation := .mul, width, source := place }, .absent)
      | 5 => some ({ operation := .imul, width, source := place }, .absent)
      | 6 => some ({ operation := .div, width, source := place }, .absent)
      | 7 => some ({ operation := .idiv, width, source := place }, .absent)
      | _ => none
  | incDec =>
      match m.reg with
      | 0 => some ({ operation := .inc, width, source := place, destination := place }, .absent)
      | 1 => some ({ operation := .dec, width, source := place, destination := place }, .absent)
      | _ => none
  | incToPush =>
      match m.reg with
      | 0 => some ({ operation := .inc, width, source := place, destination := place }, .absent)
      | 1 => some ({ operation := .dec, width, source := place, destination := place }, .absent)
      | 2 => some ({ operation := .callNear, width, source := place }, .absent)
      | 3 =>
          if m.isRegister then none
          else some ({ operation := .callFar, width := .dword, source := place }, .absent)
      | 4 => some ({ operation := .jmpNear, width, source := place }, .absent)
      | 5 =>
          if m.isRegister then none
          else some ({ operation := .jmpFar, width := .dword, source := place }, .absent)
      | 6 => some ({ operation := .push, width, source := place }, .absent)
      | _ => none
  | pop =>
      if m.reg = 0 then some ({ operation := .pop, width, destination := place }, .absent)
      else none
  | movImmediate =>
      if m.reg = 0 then
        some ({ operation := .mov, width, source := some .immediate, destination := place },
          .ofWidth width)
      else none
  | coprocessor => some ({ operation := .esc, width, destination := place }, .absent)
  | localDescriptor =>
      (localDescriptorGroup? m.reg).map fun operation =>
        ({ operation, width, source := place, destination := place }, .absent)
  | globalDescriptor =>
      (globalDescriptorGroup? m.isRegister m.reg).map fun operation =>
        ({ operation, width, source := place, destination := place }, .absent)
where
  /-- The operand that `reg` names. -/
  register : Option Operand := (Register.ofIndex? width m.reg).map .register

/-- The instruction that an addressing byte completes, but for its trailing bytes, and the layout
of these. -/
def ModRm.resolve? (model : Model) (form : ModRmForm) (width : Width) (m : ModRm) :
    Option (Body × TrailingLayout) :=
  let place := m.effectiveOperand width
  (form.select? model width m place.operand).map fun (body, operand) =>
    ({ body with sib := place.sib }, { displacement := place.displacement, operand })

end Iapx86
