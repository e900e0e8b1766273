import Iapx86.Encoding.Legality

/-!
# The decoder

A decoder takes in machine code in pieces of any size and answers with an instruction as soon as
its last byte has arrived. All that it remembers between pieces is in the `Decoder` value: how far
the instruction in progress has come, and what its bytes have said so far. It advances byte by
byte (`Decoder.step`); `Decoder.decode` takes bytes until an instruction is complete and leaves the
rest alone, and answers with the least number of bytes still missing if none is.
-/

namespace Iapx86

/-- The greatest number of bytes up to the opcode and with it. Bytes before the opcode that leave
no room for one within it are refused. -/
def maxLength : Nat := 15

/-- How far an instruction in progress has come, with what is settled by then. -/
inductive Phase where
  /-- Before the opcode. -/
  | opcode
  /-- After `0F`. -/
  | secondary
  /-- Before the addressing byte. -/
  | modRm (form : ModRmForm) (width : Width)
  /-- Before the byte of scale, index and base that 32-bit addresses may have. It is not looked
  at. -/
  | scaleIndexBase (body : Body) (layout : TrailingLayout)
  /-- Among the trailing bytes. -/
  | trailing (body : Body) (layout : TrailingLayout) (received : Nat) (register : TrailingRegister)
  deriving DecidableEq, Repr, Inhabited

/-- A decoder, with the instruction in progress. -/
structure Decoder where
  model : Model
  phase : Phase := .opcode
  prefixes : Prefixes := {}
  /-- The number of bytes of the instruction in progress. -/
  consumed : Nat := 0
  deriving DecidableEq, Repr

/-- What comes of offering bytes to a decoder. -/
inductive DecodeResult where
  /-- The bytes end or contain the end of an instruction, which is this long, bytes offered before
  included. -/
  | complete (length : Nat) (instruction : Instruction)
  /-- All bytes are taken in, and at least this many more are needed; none are if there is no
  instruction in progress. -/
  | needMore (atLeast : Nat)
  deriving DecidableEq, Repr

/-- What comes of one byte. -/
inductive StepResult where
  | complete (length : Nat) (instruction : Instruction)
  | pending (decoder : Decoder)
  deriving DecidableEq, Repr

namespace Decoder

/-- A decoder with no instruction in progress. -/
def new (model : Model) : Decoder := { model }

/-- Drops the instruction in progress. -/
def reset (d : Decoder) : Decoder := new d.model

/-- Whether there is no instruction in progress. -/
def isIdle (d : Decoder) : Bool := d.phase = .opcode && d.consumed = 0

/-- Whether a byte begins an instruction or stands before one, on the decoder's model. -/
def isLegal (d : Decoder) (opcode : UInt8) : Bool := (Legality.ofModel d.model).primary opcode

/-- Whether a byte continues an instruction after `0F`, on the decoder's model. -/
def isLegalSecondary (d : Decoder) (opcode : UInt8) : Bool :=
  (Legality.ofModel d.model).secondary opcode

/-- The bytes that the instruction in progress needs at least. -/
def shortfall (d : Decoder) : Nat :=
  match d.phase with
  | .trailing _ layout received _ => layout.size - received
  | _ => if d.consumed = 0 then 0 else 1

/-- The decoder after one more byte, in the given phase. -/
def enter (d : Decoder) (phase : Phase) : StepResult :=
  .pending { d with phase, consumed := d.consumed + 1 }

/-- The byte refutes that there is an instruction. -/
def refuse (d : Decoder) : StepResult := .complete (d.consumed + 1) .undefined

/-- The byte is the last one of the instruction. -/
def finish (d : Decoder) (body : Body) : StepResult :=
  .complete (d.consumed + 1) { toPrefixes := d.prefixes, toBody := body }

/-- Goes on to the trailing bytes, if there are any. -/
def awaitTrailing (d : Decoder) (body : Body) (layout : TrailingLayout) : StepResult :=
  if layout.size = 0 then d.finish body else d.enter (.trailing body layout 0 {})

/-- Whether a byte of scale, index and base follows the addressing byte. -/
def takesScaleIndexBase (d : Decoder) (m : ModRm) : Bool :=
  d.prefixes.addressSize = .bits32 && !m.isRegister && m.rm = 4

/-- Takes in the byte that is an opcode or stands before one. -/
def stepOpcode (d : Decoder) (byte : UInt8) : StepResult :=
  if !(Legality.ofModel d.model).primary byte then d.refuse
  else match (OpcodeMap.primary byte).shape with
    | .undefined => d.refuse
    | .prefixByte p =>
        if d.consumed + 1 ≥ maxLength then d.refuse
        else { d with prefixes := p.apply d.prefixes }.enter .opcode
    | .escape => d.enter .secondary
    | .fixed body layout => d.awaitTrailing body layout
    | .modRm form width => d.enter (.modRm form width)

/-- Takes in the byte after `0F`. -/
def stepSecondary (d : Decoder) (byte : UInt8) : StepResult :=
  if !(Legality.ofModel d.model).secondary byte then d.refuse
  else match (OpcodeMap.secondary byte).shape with
    | .undefined | .prefixByte _ | .escape => d.refuse
    | .fixed body layout => d.awaitTrailing body layout
    | .modRm form width => d.enter (.modRm form width)

/-- Takes in the addressing byte. -/
def stepModRm (d : Decoder) (form : ModRmForm) (width : Width) (byte : UInt8) : StepResult :=
  let m := ModRm.ofByte byte
  match m.resolve? d.model form width with
  | none => d.refuse
  | some (body, layout) =>
      if d.takesScaleIndexBase m then d.enter (.scaleIndexBase body layout)
      else d.awaitTrailing body layout

/-- Takes in a trailing byte. -/
def stepTrailing (d : Decoder) (body : Body) (layout : TrailingLayout) (received : Nat)
    (register : TrailingRegister) (byte : UInt8) : StepResult :=
  let register := register.push byte
  if received + 1 < layout.size then d.enter (.trailing body layout (received + 1) register)
  else d.finish (body.withTrailing layout register)

/-- Takes in one byte. -/
def step (d : Decoder) (byte : UInt8) : StepResult :=
  match d.phase with
  | .opcode => d.stepOpcode byte
  | .secondary => d.stepSecondary byte
  | .modRm form width => d.stepModRm form width byte
  | .scaleIndexBase body layout => d.awaitTrailing body layout
  | .trailing body layout received register => d.stepTrailing body layout received register byte

/-- Takes in bytes until an instruction is complete or there are no more. The decoder that comes
back has no instruction in progress in the first case. -/
def decode : Decoder → List UInt8 → DecodeResult × Decoder
  | d, [] => (.needMore d.shortfall, d)
  | d, byte :: bytes =>
      match d.step byte with
      | .complete length instruction => (.complete length instruction, d.reset)
      | .pending d' => d'.decode bytes

@[simp] theorem decode_nil (d : Decoder) : d.decode [] = (.needMore d.shortfall, d) := rfl

theorem decode_cons (d : Decoder) (byte : UInt8) (bytes : List UInt8) :
    d.decode (byte :: bytes) =
      match d.step byte with
      | .complete length instruction => (.complete length instruction, d.reset)
      | .pending d' => d'.decode bytes := rfl

end Decoder

/-- Decodes the instruction at the start of the bytes. -/
def decodeOne (model : Model) (bytes : List UInt8) : DecodeResult :=
  ((Decoder.new model).decode bytes).1

namespace DecodeResult

/-- The length of a complete instruction, and otherwise the number of missing bytes, negated. -/
def count : DecodeResult → Int
  | complete length _ => length
  | needMore atLeast => -atLeast

/-- The instruction, if it is complete. -/
def instruction? : DecodeResult → Option Instruction
  | complete _ instruction => some instruction
  | needMore _ => none

/-- Whether an instruction is complete. -/
def isComplete : DecodeResult → Bool
  | complete _ _ => true
  | needMore _ => false

end DecodeResult

end Iapx86
