import Iapx86.Encoding.OpcodeMap
import Iapx86.Encoding.OpcodeSet

/-!
# Legal opcodes

The opcodes that each model knows, as sets made from the opcode map once and for all. The
secondary page is reached through the opcode `0F` only, so nothing on it is legal on a model that
does not know `0F`.
-/

namespace Iapx86

/-- The opcodes that a model knows: first bytes, and entries of the secondary page. -/
structure Legality where
  primaryOpcodes : OpcodeSet
  secondaryOpcodes : OpcodeSet
  deriving DecidableEq, Repr

namespace Legality

/-- Collects the opcodes that the opcode map has for a model. -/
def collect (model : Model) : Legality where
  primaryOpcodes := .ofPredicate fun b => (OpcodeMap.primary b).isLegalOn model
  secondaryOpcodes := .ofPredicate fun b => (OpcodeMap.secondary b).isLegalOn model

/-- The opcodes of the 8086. -/
def i8086 : Legality := collect .i8086

/-- The opcodes of the 80186. -/
def i80186 : Legality := collect .i80186

/-- The opcodes of the 80286. -/
def i80286 : Legality := collect .i80286

/-- The opcodes of the 80386. -/
def i80386 : Legality := collect .i80386

/-- The opcodes of a model. -/
def ofModel : Model → Legality
  | .i8086 => i8086
  | .i80186 => i80186
  | .i80286 => i80286
  | .i80386 => i80386

theorem ofModel_eq_collect (model : Model) : ofModel model = collect model := by
  cases model <;> rfl

/-- Whether a byte begins an instruction or stands before one. -/
def primary (l : Legality) (opcode : UInt8) : Bool := l.primaryOpcodes.contains opcode

/-- Whether a byte continues an instruction after `0F`. -/
def secondary (l : Legality) (opcode : UInt8) : Bool :=
  l.primary 0x0F && l.secondaryOpcodes.contains opcode

theorem primary_ofModel (model : Model) (opcode : UInt8) :
    (ofModel model).primary opcode = (OpcodeMap.primary opcode).isLegalOn model := by
  simp [ofModel_eq_collect, collect, primary]

theorem secondary_ofModel (model : Model) (opcode : UInt8) :
    (ofModel model).secondary opcode =
      ((OpcodeMap.primary 0x0F).isLegalOn model &&
        (OpcodeMap.secondary opcode).isLegalOn model) := by
  rw [secondary, primary_ofModel, ofModel_eq_collect]
  simp [collect]

end Legality

end Iapx86
