import Iapx86.Proofs.Reading

/-!
# The names of registers

A register is written by its name in operations of the instruction's width. Two registers go by
another name where they are no data: the count of a shift is a source, and the port of an input or
output is the source of the one and the destination of the other (`Instruction.nameInSlot`). What is
written depends on the register and the operation alone and not on the slot, so a register that
stands for data may be taken for one that does not. No port is ever taken for data
(`portApart_of_decodeOne`), but `cx` is taken for the count where it is shifted itself
(`operandTexts_eq_named`).
-/

namespace Iapx86

open Numeral (hexadecimal)

/-- The places that an instruction has for operands. -/
inductive OperandSlot where
  | source
  | destination
  deriving DecidableEq, Repr

theorem OperandSlot.forall_iff {P : OperandSlot → Prop} :
    (∀ slot, P slot) ↔ P .source ∧ P .destination :=
  ⟨fun h => ⟨h .source, h .destination⟩, fun h slot => by cases slot; exacts [h.1, h.2]⟩

instance (P : OperandSlot → Prop) [DecidablePred P] : Decidable (∀ slot, P slot) :=
  decidable_of_iff' _ OperandSlot.forall_iff

def Body.inSlot (b : Body) : OperandSlot → Option Operand
  | .source => b.source
  | .destination => b.destination

/-- Where an input or output has its port. -/
def Operation.portSlot? : Operation → Option OperandSlot
  | input => some .source
  | output => some .destination
  | _ => none

theorem Operation.isInputOutput_of_portSlot? {operation : Operation} {slot : OperandSlot}
    (h : operation.portSlot? = some slot) : operation.isInputOutput = true := by
  cases operation <;> first | rfl | cases h

namespace Instruction

/-- The name of a register in a slot: that of the count of a shift and that of a port are the same
for all widths. -/
def nameInSlot (i : Instruction) (slot : OperandSlot) (r : Register) : String :=
  if slot = .source ∧ r = .cx ∧ i.operation.isShift then "cl"
  else if i.operation.portSlot? = some slot ∧ r = .dx then "dx"
  else r.name i.width

/-- An operand when registers are written with these names. -/
def operandTextNamed (i : Instruction) (name : Register → String) : Operand → String
  | .register r => name r
  | o => i.operandText o

def slotTextNamed (i : Instruction) (name : OperandSlot → Register → String) (slot : OperandSlot) :
    List String :=
  ((i.inSlot slot).map (i.operandTextNamed (name slot))).toList

/-- The operands as they are written, when registers are written with these names. Where a distance,
a pointer or nothing but numbers is written, there are no registers among it. -/
def operandTextsNamed (i : Instruction) (name : OperandSlot → Register → String) : List String :=
  if i.operation.isRelativeBranch ∨ i.farTarget?.isSome ∨ i.operation.unwritten?.isSome then
    i.operandTexts
  else if i.operation.isSingleOperand then i.slotTextNamed name .destination
  else
    i.slotTextNamed name .destination ++ i.slotTextNamed name .source ++
      if i.operation = .imul ∧ i.destination ≠ none then [hexadecimal i.operand.toNat] else []

variable {i : Instruction}

theorem slotTextNamed_register {slot : OperandSlot} {r : Register}
    (h : i.inSlot slot = some (.register r)) (name : OperandSlot → Register → String) :
    i.slotTextNamed name slot = [name slot r] := by
  rw [slotTextNamed, h]
  rfl

theorem slotTextNamed_congr {name name' : OperandSlot → Register → String} {slot : OperandSlot}
    (h : ∀ r, i.inSlot slot = some (.register r) → name slot r = name' slot r) :
    i.slotTextNamed name slot = i.slotTextNamed name' slot := by
  unfold slotTextNamed
  cases hslot : i.inSlot slot with
  | none => rfl
  | some o =>
      cases o with
      | register r => exact congrArg (fun text => [text]) (h r hslot)
      | segment s | immediate | directAddress | indirect => rfl

/-- Only the names of the registers in the slots matter. -/
theorem operandTextsNamed_congr {name name' : OperandSlot → Register → String}
    (h : ∀ slot r, i.inSlot slot = some (.register r) → name slot r = name' slot r) :
    i.operandTextsNamed name = i.operandTextsNamed name' := by
  unfold operandTextsNamed
  rw [slotTextNamed_congr (h .destination), slotTextNamed_congr (h .source)]

theorem operandTexts_eq_operandTextsNamed (i : Instruction) :
    i.operandTexts = i.operandTextsNamed fun _ r => i.operandText (.register r) := by
  have hslot (slot : OperandSlot) :
      i.slotTextNamed (fun _ r => i.operandText (.register r)) slot =
        i.operandTexts? (i.inSlot slot) := by
    unfold slotTextNamed operandTexts?
    cases i.inSlot slot with
    | none => rfl
    | some o => cases o <;> rfl
  unfold operandTextsNamed
  split
  · rfl
  · next hplain =>
      simp only [not_or, Bool.not_eq_true, Option.isSome_eq_false_iff, Option.isNone_iff_eq_none]
        at hplain
      obtain ⟨hbranch, hfar, hwritten⟩ := hplain
      rw [operandTexts_eq, writtenOperands, if_neg (by simp [hbranch]), hfar]
      dsimp only
      rw [if_neg (by simp [hwritten]), map_text_plainOperands, hslot, hslot]
      split
      · rfl
      · split
        · rfl
        · rw [List.append_nil]
          rfl

end Instruction

/-! ## Ports -/

/-- Besides the port, an input or output has the accumulator. -/
def Body.PortApart (b : Body) : Prop :=
  ∀ slot, b.operation.isInputOutput → b.operation.portSlot? ≠ some slot →
    b.inSlot slot = some (.register .ax)

instance (b : Body) : Decidable b.PortApart := inferInstanceAs (Decidable (∀ _, _))

theorem Body.portApart_of_not_isInputOutput {b : Body} (h : b.operation.isInputOutput = false) :
    b.PortApart := by
  intro slot hport
  rw [h] at hport
  cases hport

theorem Operation.isInputOutput_of_isPlain {operation : Operation}
    (h : operation.isPlain = true) : operation.isInputOutput = false := by
  simp only [isPlain, Bool.and_eq_true, Bool.not_eq_true'] at h
  exact h.2

/-- An addressing byte makes neither. -/
theorem ModRmForm.isInputOutput_of_select? {model : Model} {form : ModRmForm} {width : Width}
    {m : ModRm} {place : Option Operand} {body : Body} {operand : OperandField}
    (hplain : form.IsPlain) (h : form.select? model width m place = some (body, operand)) :
    body.operation.isInputOutput = false := by
  cases form with
  | toMemory operation | toRegister operation | toRegisterImmediate operation immediate =>
      cases h
      exact Operation.isInputOutput_of_isPlain hplain
  | fromAddress operation =>
      rw [select?] at h
      split at h <;> cases h
      exact Operation.isInputOutput_of_isPlain hplain
  | toSegment | fromSegment =>
      obtain ⟨s, -, hs⟩ := Option.map_eq_some_iff.mp h
      cases hs
      rfl
  | arithmetic immediate =>
      cases h
      exact Operation.isInputOutput_of_isPlain (isPlain_arithmeticGroup m.reg)
  | shift count =>
      obtain ⟨operation, hgroup, hs⟩ := Option.map_eq_some_iff.mp h
      have hshift := Operation.isInputOutput_of_isPlain (isPlain_of_shiftGroup? hgroup)
      cases count <;> cases hs <;> exact hshift
  | localDescriptor =>
      obtain ⟨operation, hgroup, hs⟩ := Option.map_eq_some_iff.mp h
      cases hs
      exact Operation.isInputOutput_of_isPlain (isPlain_of_localDescriptorGroup? hgroup)
  | globalDescriptor =>
      obtain ⟨operation, hgroup, hs⟩ := Option.map_eq_some_iff.mp h
      cases hs
      exact Operation.isInputOutput_of_isPlain (isPlain_of_globalDescriptorGroup? hgroup)
  | coprocessor =>
      cases h
      rfl
  | unary | incDec | pop | movImmediate =>
      rw [select?] at h
      split at h <;> cases h <;> rfl
  | incToPush =>
      rw [select?] at h
      repeat' split at h
      all_goals cases h <;> rfl

def OpcodeShape.PortApart : OpcodeShape → Prop
  | fixed body _ => body.PortApart
  | undefined | prefixByte _ | escape | modRm _ _ => True

instance : (shape : OpcodeShape) → Decidable shape.PortApart
  | .fixed body _ => inferInstanceAs (Decidable body.PortApart)
  | .undefined | .prefixByte _ | .escape | .modRm _ _ => .isTrue trivial

theorem Opcode.portApart_shape (opcode : Opcode) : opcode.shape.PortApart := by
  have hprimary : ∀ byte, (primary byte).shape.PortApart := forall_byte (by decide +kernel)
  have hsecondary : ∀ byte, (secondary byte).shape.PortApart := forall_byte (by decide +kernel)
  cases opcode with
  | primary byte => exact hprimary byte
  | secondary byte => exact hsecondary byte

theorem Body.IsSettled.portApart {model : Model} {body : Body} {layout : TrailingLayout}
    (h : body.IsSettled model layout) : body.PortApart := by
  obtain ⟨opcode, addressing, hsettled⟩ := h
  have hport := opcode.portApart_shape
  have hreadable := opcode.isReadable_shape
  rcases Opcode.settled?_cases hsettled with ⟨-, hshape⟩ | ⟨form, width, byte, -, hshape, hresolve⟩
  · rw [hshape] at hport
    exact hport
  · rw [hshape] at hreadable
    obtain ⟨⟨selected, operand⟩, hselect, hbody⟩ := Option.map_eq_some_iff.mp hresolve
    have hoperation := ModRmForm.isInputOutput_of_select? hreadable hselect
    cases hbody
    exact Body.portApart_of_not_isInputOutput hoperation

theorem portApart_of_decodeOne {model : Model} {bytes : List UInt8} {length : Nat}
    {i : Instruction} (h : decodeOne model bytes = .complete length i)
    (hdefined : i.isUndefined = false) : i.toBody.PortApart := by
  obtain ⟨body, layout, register, hsettled, hbody⟩ := hasOrigin_of_decodeOne h hdefined
  obtain ⟨displacement, operand, heq⟩ := body.exists_withTrailing_eq layout register
  rw [hbody, heq]
  exact hsettled.portApart

/-! ## Names -/

namespace Instruction

variable {i : Instruction}

/-- What is written for a register in a slot. -/
theorem operandText_register (hport : i.toBody.PortApart) {slot : OperandSlot} {r : Register}
    (hslot : i.inSlot slot = some (.register r)) :
    i.operandText (.register r) =
      if r = .cx ∧ i.operation.isShift then "cl" else i.nameInSlot slot r := by
  -- The slot does not matter to `dx`, since the other operand of an input or output is `ax`.
  have hdx : r = .dx ∧ i.operation.isInputOutput ↔ i.operation.portSlot? = some slot ∧ r = .dx := by
    constructor
    · rintro ⟨rfl, hoperation⟩
      refine ⟨?_, rfl⟩
      by_contra hother
      rw [hport slot hoperation hother] at hslot
      cases hslot
    · rintro ⟨hports, rfl⟩
      exact ⟨rfl, Operation.isInputOutput_of_portSlot? hports⟩
  unfold operandText nameInSlot
  dsimp only
  split
  · rfl
  · next hcx =>
      have hcount : ¬ (slot = .source ∧ r = .cx ∧ i.operation.isShift) := fun h => hcx h.2
      rw [if_neg hcount]
      simp only [hdx]

theorem width_of_register (hwell : i.toBody.WellFormed) {slot : OperandSlot} {r : Register}
    (hslot : i.inSlot slot = some (.register r)) : i.width = .byte ∨ i.width = .word := by
  have hmem : .register r ∈ i.operands := by
    rw [Body.mem_operands]
    cases slot with
    | source => exact .inl hslot
    | destination => exact .inr hslot
  have hfits : r ∈ Register.ofWidth i.width := hwell.fits _ hmem
  cases hwidth : i.width with
  | byte => exact .inl rfl
  | word => exact .inr rfl
  | implied | dword =>
      rw [hwidth] at hfits
      cases hfits

/-- In a shift `cx` is called `cl` as the count and as a byte that is shifted, but not as a word. -/
theorem nameInSlot_cx (hshift : i.operation.isShift = true) (hwell : i.toBody.WellFormed)
    {slot : OperandSlot} (hslot : i.inSlot slot = some (.register .cx)) :
    i.nameInSlot slot .cx = "cl" ↔ ¬ (slot = .destination ∧ i.width = .word) := by
  cases slot with
  | source => simp [nameInSlot, hshift]
  | destination =>
      rcases width_of_register hwell hslot with hwidth | hwidth <;>
        simp [nameInSlot, Register.name, hwidth]

theorem operandTextsNamed_of_isShift (hshift : i.operation.isShift = true)
    (name : OperandSlot → Register → String) :
    i.operandTextsNamed name =
      i.slotTextNamed name .destination ++ i.slotTextNamed name .source := by
  have hlike : ∀ operation : Operation, operation.isShift = true →
      operation.isRelativeBranch = false ∧ operation ≠ .callFar ∧ operation ≠ .jmpFar ∧
        operation.unwritten? = none ∧ operation.isSingleOperand = false ∧ operation ≠ .imul := by
    intro operation h
    cases operation <;> cases h <;> simp [Operation.isRelativeBranch, Operation.unwritten?,
      Operation.isSingleOperand]
  obtain ⟨hbranch, hcall, hjump, hwritten, hsingle, himul⟩ := hlike _ hshift
  have hfar : ¬ i.farTarget?.isSome := by
    rw [Body.isSome_farTarget?_iff]
    simp [hcall, hjump]
  rw [operandTextsNamed, if_neg (by simp [hbranch, hfar, hwritten]), if_neg (by simp [hsingle]),
    if_neg (by simp [himul]), List.append_nil]

end Instruction

/-- Every register is written by its name in operations of the instruction's width, except for the
count of a shift and the port of an input or output; but `cx` is written as if it were the count
where it is shifted itself. So the names are the right ones unless `cx` is shifted as a word. -/
theorem operandTexts_eq_named (model : Model) (bytes : List UInt8) (length : Nat) (i : Instruction)
    (h : decodeOne model bytes = .complete length i) (hdefined : i.isUndefined = false) :
    (i.operandTexts = i.operandTextsNamed fun slot r =>
      if r = .cx ∧ i.operation.isShift then "cl" else i.nameInSlot slot r) ∧
    (i.operandTexts = i.operandTextsNamed i.nameInSlot ↔
      ¬ (i.operation.isShift ∧ i.width = .word ∧ i.destination = some (.register .cx))) := by
  have hport := portApart_of_decodeOne h hdefined
  have hwell : i.toBody.WellFormed :=
    Decoder.wellFormed_of_decode model [] bytes length i h hdefined
  have htexts : i.operandTexts = i.operandTextsNamed fun slot r =>
      if r = .cx ∧ i.operation.isShift then "cl" else i.nameInSlot slot r := by
    rw [i.operandTexts_eq_operandTextsNamed]
    exact Instruction.operandTextsNamed_congr fun _ _ => Instruction.operandText_register hport
  refine ⟨htexts, fun heq => ?_, fun hother => htexts.trans ?_⟩
  · -- Both lists begin with the register that is shifted.
    rintro ⟨hshift, hwidth, hcx⟩
    have hslot : i.inSlot .destination = some (.register .cx) := hcx
    rw [htexts, Instruction.operandTextsNamed_of_isShift hshift,
      Instruction.operandTextsNamed_of_isShift hshift, Instruction.slotTextNamed_register hslot,
      Instruction.slotTextNamed_register hslot, if_pos ⟨rfl, hshift⟩] at heq
    have hname := (List.cons.inj heq).1
    exact (Instruction.nameInSlot_cx hshift hwell hslot).mp hname.symm ⟨rfl, hwidth⟩
  · refine Instruction.operandTextsNamed_congr fun slot r hslot => ?_
    split
    · next hcount =>
        obtain ⟨rfl, hshift⟩ := hcount
        refine ((Instruction.nameInSlot_cx hshift hwell hslot).mpr ?_).symm
        rintro ⟨rfl, hwidth⟩
        exact hother ⟨hshift, hwidth, hslot⟩
    · rfl

/-- A word is shifted, and an output goes to a port. -/
theorem operandTexts_eq_named_shift_output :
    let shift : Instruction :=
      { operation := .sal, source := some (.register .cx), destination := some (.register .dx),
        width := .word }
    let output : Instruction :=
      { operation := .output, source := some (.register .ax),
        destination := some (.register .dx), width := .byte }
    decodeOne .i8086 [0xD3, 0xE2] = .complete 2 shift ∧ shift.isUndefined = false ∧
      shift.operandTexts = ["dx", "cl"] ∧
      decodeOne .i8086 [0xEE] = .complete 1 output ∧ output.isUndefined = false ∧
      output.operandTexts = ["dx", "al"] := by
  intro shift output
  have hshift : decodeOne .i8086 [0xD3, 0xE2] = .complete 2 shift := by decide +kernel
  have houtput : decodeOne .i8086 [0xEE] = .complete 1 output := by decide +kernel
  refine ⟨hshift, rfl, ?_, houtput, rfl, ?_⟩
  · exact ((operandTexts_eq_named _ _ _ _ hshift rfl).2.mpr (by decide)).trans (by decide)
  · exact ((operandTexts_eq_named _ _ _ _ houtput rfl).2.mpr (by decide)).trans (by decide)

/-- The register that is shifted is written as the count is, and not by its name. -/
theorem not_forall_operandTexts_eq :
    ¬ ∀ model bytes length i, decodeOne model bytes = .complete length i → i.isUndefined = false →
      i.operandTexts = i.operandTextsNamed i.nameInSlot := by
  intro h
  have hdecode : decodeOne .i8086 [0xD3, 0xE1] = .complete 2
      { operation := .sal, source := some (.register .cx), destination := some (.register .cx),
        width := .word } := by
    decide +kernel
  exact absurd (h _ _ _ _ hdecode rfl) (by decide)

end Iapx86
