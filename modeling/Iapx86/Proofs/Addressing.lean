import Iapx86.Proofs.Opcodes

/-!
# Addressing bytes that are refused

An opcode that an addressing byte follows does not go with all of them: some ask for memory, some
are groups with holes, and some name a segment register by its number. The rule is given twice, for
the opcodes by their numbers, as manuals list it (`Opcode.RefusesAddressing`), and for the forms
that the opcodes have in the map (`ModRmForm.Refuses`). The two agree, and a form that does not
refuse an addressing byte names an operation.
-/

namespace Iapx86

namespace Opcode

/-- The opcode does not go with the addressing byte: it asks for memory and a register is named, or
its group has no such member, or there is no such segment register. -/
def RefusesAddressing (model : Model) (opcode : UInt8) (m : ModRm) : Prop :=
  (opcode ∈ [0x62, 0x8D, 0xC4, 0xC5] ∧ m.mode = 3) ∨
  (opcode ∈ [0xC0, 0xC1, 0xD0, 0xD1, 0xD2, 0xD3] ∧ m.reg = 6) ∨
  (opcode ∈ [0xF6, 0xF7] ∧ m.reg = 1) ∨
  (opcode = 0xFE ∧ 1 < m.reg) ∨
  (opcode = 0xFF ∧ (m.reg = 7 ∨ (m.reg = 3 ∨ m.reg = 5) ∧ m.mode = 3)) ∨
  (opcode ∈ [0x8F, 0xC6, 0xC7] ∧ m.reg ≠ 0) ∨
  (opcode ∈ [0x8C, 0x8E] ∧ (if .i80386 ≤ model then 5 else 3) < m.reg)

/-- After `0F`, the opcode does not go with the addressing byte. -/
def RefusesSecondaryAddressing (opcode : UInt8) (m : ModRm) : Prop :=
  (opcode = 0x00 ∧ 5 < m.reg) ∨
  (opcode = 0x01 ∧ (m.reg % 2 = 1 ∨ (m.reg = 0 ∨ m.reg = 2) ∧ m.mode = 3))

end Opcode

open Opcode

/-! ## The forms -/

namespace ModRmForm

/-- The fields of the addressing byte for which there is no instruction of this form. -/
def Refuses (model : Model) (m : ModRm) : ModRmForm → Prop
  | fromAddress _ => m.mode = 3
  | toSegment | fromSegment => (if .i80386 ≤ model then 5 else 3) < m.reg
  | shift _ => m.reg = 6
  | unary => m.reg = 1
  | incDec => 1 < m.reg
  | incToPush => m.reg = 7 ∨ (m.reg = 3 ∨ m.reg = 5) ∧ m.mode = 3
  | pop | movImmediate => m.reg ≠ 0
  | localDescriptor => 5 < m.reg
  | globalDescriptor => m.reg % 2 = 1 ∨ (m.reg = 0 ∨ m.reg = 2) ∧ m.mode = 3
  | toMemory _ | toRegister _ | toRegisterImmediate _ _ | arithmetic _ | coprocessor => False

/-- The operation that the form brings with it is one, if it brings one. -/
def isDefined : ModRmForm → Bool
  | toMemory operation | toRegister operation | fromAddress operation
  | toRegisterImmediate operation _ => operation ≠ .undefined
  | _ => true

end ModRmForm

theorem Segment.ofIndex?_eq_none_iff (model : Model) (i : Nat) :
    Segment.ofIndex? model i = none ↔ (if .i80386 ≤ model then 5 else 3) < i := by
  match i with
  | 0 | 1 | 2 | 3 | 4 | 5 => by_cases h : Model.i80386 ≤ model <;> simp [Segment.ofIndex?, h]
  | i + 6 =>
      have h : (if .i80386 ≤ model then 5 else 3) < i + 6 := by split <;> omega
      simp [Segment.ofIndex?, h]

theorem shiftGroup?_eq_none_iff : ∀ reg < 8, shiftGroup? reg = none ↔ reg = 6 := by decide

theorem localDescriptorGroup?_eq_none_iff :
    ∀ reg < 8, localDescriptorGroup? reg = none ↔ 5 < reg := by decide

theorem globalDescriptorGroup?_eq_none_iff (isRegister : Bool) :
    ∀ reg < 8, globalDescriptorGroup? isRegister reg = none ↔
      reg % 2 = 1 ∨ (reg = 0 ∨ reg = 2) ∧ isRegister = true := by
  cases isRegister <;> decide

theorem ModRm.resolve?_eq_none_iff (model : Model) (form : ModRmForm) (width : Width) (m : ModRm)
    (hreg : m.reg < 8) : m.resolve? model form width = none ↔ form.Refuses model m := by
  have hregister : m.isRegister = true ↔ m.mode = 3 := decide_eq_true_iff
  have hmember : m.reg = 0 ∨ m.reg = 1 ∨ m.reg = 2 ∨ m.reg = 3 ∨ m.reg = 4 ∨ m.reg = 5 ∨
      m.reg = 6 ∨ m.reg = 7 := by omega
  rw [ModRm.resolve?, Option.map_eq_none_iff]
  cases form with
  | toSegment | fromSegment =>
      rw [ModRmForm.select?, Option.map_eq_none_iff, Segment.ofIndex?_eq_none_iff]
      rfl
  | shift count =>
      rw [ModRmForm.select?, Option.map_eq_none_iff]
      exact shiftGroup?_eq_none_iff m.reg hreg
  | localDescriptor =>
      rw [ModRmForm.select?, Option.map_eq_none_iff]
      exact localDescriptorGroup?_eq_none_iff m.reg hreg
  | globalDescriptor =>
      rw [ModRmForm.select?, Option.map_eq_none_iff, globalDescriptorGroup?_eq_none_iff _ _ hreg,
        hregister]
      rfl
  | unary | incDec | incToPush =>
      rcases hmember with h | h | h | h | h | h | h | h <;>
        simp [ModRmForm.select?, ModRmForm.Refuses, h, hregister]
  | fromAddress operation => simp [ModRmForm.select?, ModRmForm.Refuses, hregister]
  | pop | movImmediate | toMemory operation | toRegister operation
  | toRegisterImmediate operation immediate | arithmetic immediate | coprocessor =>
      simp [ModRmForm.select?, ModRmForm.Refuses]

/-! ## The opcodes and their forms -/

namespace Opcode

/-- The lists of the rule are the places of the forms in the map. -/
theorem shape_form_iff : ∀ opcode : UInt8,
    let shape := (OpcodeMap.primary opcode).shape
    (opcode ∈ [0x62, 0x8D, 0xC4, 0xC5] ↔ shape matches .modRm (.fromAddress _) _) ∧
    (opcode ∈ [0xC0, 0xC1, 0xD0, 0xD1, 0xD2, 0xD3] ↔ shape matches .modRm (.shift _) _) ∧
    (opcode ∈ [0xF6, 0xF7] ↔ shape matches .modRm .unary _) ∧
    (opcode = 0xFE ↔ shape matches .modRm .incDec _) ∧
    (opcode = 0xFF ↔ shape matches .modRm .incToPush _) ∧
    (opcode ∈ [0x8F, 0xC6, 0xC7] ↔ shape matches .modRm .pop _ | .modRm .movImmediate _) ∧
    (opcode ∈ [0x8C, 0x8E] ↔ shape matches .modRm .fromSegment _ | .modRm .toSegment _) ∧
    !shape matches .modRm .localDescriptor _ | .modRm .globalDescriptor _ :=
  forall_byte (by decide +kernel)

/-- Only the groups of the descriptor tables refuse an addressing byte after `0F`. -/
theorem secondary_form_iff : ∀ opcode : UInt8,
    let shape := (OpcodeMap.secondary opcode).shape
    (opcode = 0x00 ↔ shape matches .modRm .localDescriptor _) ∧
    (opcode = 0x01 ↔ shape matches .modRm .globalDescriptor _) ∧
    shape matches .undefined | .fixed _ _ | .modRm .localDescriptor _ | .modRm .globalDescriptor _
      | .modRm (.toRegister _) _ :=
  forall_byte (by decide +kernel)

theorem refusesAddressing_iff {model : Model} {opcode : UInt8} {m : ModRm} {form : ModRmForm}
    {width : Width} (hshape : (OpcodeMap.primary opcode).shape = .modRm form width) :
    RefusesAddressing model opcode m ↔ form.Refuses model m := by
  have h := shape_form_iff opcode
  rw [hshape] at h
  obtain ⟨haddress, hshift, hunary, hincDec, hincToPush, hzero, hsegment, hdescriptor⟩ := h
  rw [RefusesAddressing, haddress, hshift, hunary, hincDec, hincToPush, hzero, hsegment]
  cases form <;> simp_all [ModRmForm.Refuses]

theorem not_refusesAddressing {model : Model} {opcode : UInt8} {m : ModRm}
    (hshape : ∀ form width, (OpcodeMap.primary opcode).shape ≠ .modRm form width) :
    ¬ RefusesAddressing model opcode m := by
  obtain ⟨haddress, hshift, hunary, hincDec, hincToPush, hzero, hsegment, -⟩ :=
    shape_form_iff opcode
  rw [RefusesAddressing, haddress, hshift, hunary, hincDec, hincToPush, hzero, hsegment]
  cases h : (OpcodeMap.primary opcode).shape <;> simp_all

theorem not_refusesSecondaryAddressing {opcode : UInt8} {m : ModRm}
    (hshape : ∀ form width, (OpcodeMap.secondary opcode).shape ≠ .modRm form width) :
    ¬ RefusesSecondaryAddressing opcode m := by
  obtain ⟨hlocal, hglobal, -⟩ := secondary_form_iff opcode
  rw [RefusesSecondaryAddressing, hlocal, hglobal]
  cases h : (OpcodeMap.secondary opcode).shape <;> simp_all

theorem mem_of_refusesSecondaryAddressing {opcode : UInt8} {m : ModRm}
    (h : RefusesSecondaryAddressing opcode m) : opcode ∈ secondaryOpcodes := by
  rcases h with ⟨rfl, -⟩ | ⟨rfl, -⟩ <;> decide

theorem refusesSecondaryAddressing_iff {model : Model} {opcode : UInt8} {m : ModRm}
    {form : ModRmForm} {width : Width}
    (hshape : (OpcodeMap.secondary opcode).shape = .modRm form width) :
    RefusesSecondaryAddressing opcode m ↔ form.Refuses model m := by
  have h := secondary_form_iff opcode
  rw [hshape] at h
  obtain ⟨hlocal, hglobal, hshapes⟩ := h
  rw [RefusesSecondaryAddressing, hlocal, hglobal]
  cases form <;> simp_all [ModRmForm.Refuses]

end Opcode

/-! ## What is accepted is defined -/

/-- Nothing in the map but the places without an instruction is undefined. -/
def OpcodeShape.isDefined : OpcodeShape → Bool
  | fixed body _ => body.operation ≠ .undefined
  | modRm form _ => form.isDefined
  | _ => true

theorem isDefined_primary : ∀ opcode, (OpcodeMap.primary opcode).shape.isDefined :=
  forall_byte (by decide +kernel)

theorem isDefined_secondary : ∀ opcode, (OpcodeMap.secondary opcode).shape.isDefined :=
  forall_byte (by decide +kernel)

theorem arithmeticGroup_ne_undefined (reg : Nat) : arithmeticGroup reg ≠ .undefined := by
  unfold arithmeticGroup
  split <;> decide

theorem shiftGroup?_ne_undefined (reg : Nat) : shiftGroup? reg ≠ some .undefined := by
  unfold shiftGroup?
  split <;> decide

theorem localDescriptorGroup?_ne_undefined (reg : Nat) :
    localDescriptorGroup? reg ≠ some .undefined := by
  unfold localDescriptorGroup?
  split <;> decide

theorem globalDescriptorGroup?_ne_undefined (isRegister : Bool) (reg : Nat) :
    globalDescriptorGroup? isRegister reg ≠ some .undefined := by
  unfold globalDescriptorGroup?
  cases isRegister <;> split <;> decide

/-- A form that accepts the addressing byte names an operation. -/
theorem ModRmForm.operation_of_select? {model : Model} {form : ModRmForm} {width : Width}
    {m : ModRm} {place : Option Operand} {body : Body} {operand : OperandField}
    (hform : form.isDefined) (hselect : form.select? model width m place = some (body, operand)) :
    body.operation ≠ .undefined := by
  cases form with
  | toMemory operation | toRegister operation | toRegisterImmediate operation immediate =>
      cases hselect
      exact of_decide_eq_true hform
  | fromAddress operation =>
      rw [ModRmForm.select?] at hselect
      split at hselect
      · cases hselect
      · cases hselect
        exact of_decide_eq_true hform
  | toSegment | fromSegment =>
      obtain ⟨s, -, hs⟩ := Option.map_eq_some_iff.mp hselect
      cases hs
      simp
  | arithmetic immediate =>
      cases hselect
      exact arithmeticGroup_ne_undefined m.reg
  | shift count =>
      obtain ⟨operation, hgroup, hs⟩ := Option.map_eq_some_iff.mp hselect
      have hne : operation ≠ .undefined := by
        rintro rfl
        exact shiftGroup?_ne_undefined m.reg hgroup
      cases count <;> cases hs <;> exact hne
  | localDescriptor =>
      obtain ⟨operation, hgroup, hs⟩ := Option.map_eq_some_iff.mp hselect
      cases hs
      rintro rfl
      exact localDescriptorGroup?_ne_undefined m.reg hgroup
  | globalDescriptor =>
      obtain ⟨operation, hgroup, hs⟩ := Option.map_eq_some_iff.mp hselect
      cases hs
      rintro rfl
      exact globalDescriptorGroup?_ne_undefined m.isRegister m.reg hgroup
  | coprocessor =>
      cases hselect
      simp
  | unary | incDec | pop | movImmediate =>
      rw [ModRmForm.select?] at hselect
      split at hselect <;> cases hselect <;> simp
  | incToPush =>
      rw [ModRmForm.select?] at hselect
      repeat' split at hselect
      all_goals cases hselect <;> simp

theorem ModRm.operation_of_resolve? {model : Model} {form : ModRmForm} {width : Width} {m : ModRm}
    {body : Body} {layout : TrailingLayout} (hform : form.isDefined)
    (h : m.resolve? model form width = some (body, layout)) : body.operation ≠ .undefined := by
  obtain ⟨⟨selected, operand⟩, hselect, hbody⟩ := Option.map_eq_some_iff.mp h
  have hoperation := ModRmForm.operation_of_select? hform hselect
  rw [Prod.mk.injEq] at hbody
  rw [← hbody.1]
  exact hoperation

theorem Body.operation_withDisplacement (b : Body) (field : DisplacementField)
    (r : TrailingRegister) : (b.withDisplacement field r).operation = b.operation := by
  cases field <;> rfl

theorem Body.operation_withTrailing (b : Body) (layout : TrailingLayout) (r : TrailingRegister) :
    (b.withTrailing layout r).operation = b.operation := by
  unfold Body.withTrailing
  split <;> rw [Body.operation_withDisplacement]

theorem Instruction.isUndefined_withTrailing (p : Prefixes) {body : Body}
    (h : body.operation ≠ .undefined) (layout : TrailingLayout) (r : TrailingRegister) :
    Instruction.isUndefined { toPrefixes := p, toBody := body.withTrailing layout r } = false := by
  apply decide_eq_false
  rwa [Body.operation_withTrailing]

end Iapx86
