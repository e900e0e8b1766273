import Iapx86.Instruction
import Iapx86.Text.Numeral

/-!
# Assembly text

An instruction in Intel's notation: what goes before it, its name, and its operands with the
destination first. Memory is written in brackets after the width of the data; the segment is named
when it is not the usual one. Bytes that encode no instruction are written `(bad)`.
-/

namespace Iapx86

open Numeral (hexadecimal signedHexadecimal)

/-- What goes before the brackets of an operand in memory. -/
def Width.keyword : Width → String
  | implied => ""
  | byte => "byte "
  | word => "word "
  | dword => "dword "

namespace Instruction

/-- The registers, the distance and the brackets of an address. -/
def addressText (i : Instruction) : Operand → String
  | .directAddress => hexadecimal i.displacement.toUInt16.toNat
  | _ =>
      let registers := (i.sib.base.toList ++ i.sib.index.toList).map (Register.name .word)
      "+".intercalate registers ++
        (if i.displacement = 0 then "" else signedHexadecimal i.displacement.toInt)

/-- An operand in memory. -/
def memoryText (i : Instruction) (operand : Operand) : String :=
  let segment := match i.segmentOverride with
    | some s => s.name ++ ":"
    | none => ""
  i.width.keyword ++ "[" ++ segment ++ i.addressText operand ++ "]"

/-- An operand. The register that counts the places of a shift is `cl` and the one that addresses
an input or output is `dx`, however wide the data are. -/
def operandText (i : Instruction) : Operand → String
  | .immediate => hexadecimal i.operand.toNat
  | .directAddress => i.memoryText .directAddress
  | .indirect => i.memoryText .indirect
  | .segment s => s.name
  | .register r =>
      if r = .cx ∧ i.operation.isShift then "cl"
      else if r = .dx ∧ i.operation.isInputOutput then "dx"
      else r.name i.width

/-- An operand that may be absent. -/
def operandTexts? (i : Instruction) (operand : Option Operand) : List String :=
  (operand.map i.operandText).toList

/-- The operands as they are written, from the left. Some operations have operands that go
without saying, and some have values that are no operand of either kind. -/
def operandTexts (i : Instruction) : List String :=
  if i.operation.isRelativeBranch then [signedHexadecimal i.displacement.toInt]
  else match i.farTarget? with
    | some (segment, offset) =>
        [hexadecimal segment.toNat ++ ":" ++ hexadecimal offset.toNat]
    | none =>
      match i.operation with
      | .daa | .das | .aaa | .aas | .cbw | .cwd => []
      | .aam | .aad => [hexadecimal i.operand.toNat]
      | .enter => [hexadecimal i.displacement.toUInt16.toNat, hexadecimal i.operand.toNat]
      | _ =>
        if i.operation.isSingleOperand then i.operandTexts? i.destination
        else if i.operation = .imul ∧ i.destination ≠ none then
          i.operandTexts? i.destination ++ i.operandTexts? i.source
            ++ [hexadecimal i.operand.toNat]
        else i.operandTexts? i.destination ++ i.operandTexts? i.source

/-- What a repetition is called before an operation: one that compares is told what to go on
for. -/
def repetitionText (operation : Operation) : Repetition → String
  | .whileEqual => if operation = .cmps ∨ operation = .scas then "repe " else "rep "
  | .whileNotEqual => "repne "

/-- The instruction in assembly text. -/
def text (i : Instruction) : String :=
  if i.isUndefined then "(bad)"
  else
    let lock := if i.lock then "lock " else ""
    let repetition := match i.repetition with
      | some r => repetitionText i.operation r
      | none => ""
    let operands := match i.operandTexts with
      | [] => ""
      | texts => " " ++ ", ".intercalate texts
    lock ++ repetition ++ i.mnemonic ++ operands

instance : ToString Instruction := ⟨text⟩

end Instruction

end Iapx86
