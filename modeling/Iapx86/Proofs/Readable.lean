import Iapx86.Proofs.Origin
import Iapx86.Proofs.WellFormed

/-!
# What goes without saying

A text leaves things out: some operations have operands that are not written, most have none to show
the width of the data, and where only one operand is written it can be the source or the
destination. `Body.IsReadable` says by which rules all this can be supplied. The opcode map keeps to
them (`isReadable_primary`), and so does whatever an addressing byte makes
(`ModRm.isReadable_of_resolve?`), so all instructions can be read (`isReadable_of_decodeOne`).
-/

namespace Iapx86

namespace Operation

/-- The instruction, but for displacement and operand, if the operation does not have its operands
written. -/
def unwritten? (operation : Operation) : Option Body :=
  let ax : Option Operand := some (.register .ax)
  match operation with
  | daa | das => some { operation, source := ax, destination := ax, width := .byte }
  | aaa | aas => some { operation, source := ax, destination := ax, width := .word }
  | cbw => some { operation, source := ax, destination := some (.register .ah), width := .byte }
  | cwd => some { operation, source := ax, destination := some (.register .dx), width := .word }
  | aam | aad => some { operation, source := some .immediate, destination := ax, width := .byte }
  | enter => some { operation, source := some .immediate }
  | _ => none

/-- The only operand there may be is the destination. -/
def hasOnlyDestination : Operation → Bool
  | pop | esc => true
  | _ => false

/-- A call or jump to another segment. -/
def isFar : Operation → Bool
  | callFar | jmpFar => true
  | _ => false

/-- The width of the data where no operand shows it. -/
def unspokenWidth (source : Option Operand) : Operation → Width
  | retFar => if source = none then .dword else .word
  | push | retNear | pusha | popa | pushf | popf => .word
  | int | xlat | sahf | lahf => .byte
  | _ => .implied

/-- Whether the operation is none of those that are written in a way of their own. -/
def isPlain (operation : Operation) : Bool :=
  operation.unwritten?.isNone && !operation.hasOnlyDestination && !operation.isFar &&
    !operation.isString && !operation.isInputOutput

end Operation

/-- Whether the name of a register or the keyword before an address shows the width of the data. The
register that addresses an input or output has the same name whatever the width. -/
def Operand.showsWidth (operation : Operation) : Operand → Bool
  | register r => !(r = .dx && operation.isInputOutput)
  | segment _ | directAddress | indirect => true
  | immediate => false

/-- There are no registers, or they are those of an address. -/
def ScaleIndexBase.IsProper (registers : ScaleIndexBase) : Prop :=
  registers = {} ∨ ∃ n < 8, registers = addressRegisters n

instance (registers : ScaleIndexBase) : Decidable registers.IsProper :=
  inferInstanceAs (Decidable (_ ∨ _))

namespace Body

/-- What is not written follows from the operation and the operands that are. -/
@[mk_iff]
structure IsReadable (b : Body) : Prop where
  unwritten : ∀ u ∈ b.operation.unwritten?,
    b = { u with displacement := b.displacement, operand := b.operand }
  onlyDestination : b.operation.hasOnlyDestination → b.source = none
  onlySource : b.operation.hasOnlyDestination = false → b.source = none → b.destination = none
  far : b.operation.isFar → b.destination = none
  stringWidth : b.operation.isString → b.width = .byte ∨ b.width = .word
  width : b.operation.isString = false → (∀ o ∈ b.operands, o.showsWidth b.operation = false) →
    b.width = b.operation.unspokenWidth b.source
  registers : b.sib.IsProper

instance (b : Body) : Decidable b.IsReadable := decidable_of_iff' _ (isReadable_iff b)

variable {b : Body}

theorem exists_withTrailing_eq (b : Body) (layout : TrailingLayout) (r : TrailingRegister) :
    ∃ displacement operand, b.withTrailing layout r = { b with displacement, operand } := by
  obtain ⟨field, operandField⟩ := layout
  cases operandField with
  | absent | byte | word => cases field <;> exact ⟨_, _, rfl⟩
  | farPointer => exact ⟨_, _, rfl⟩

theorem IsReadable.withTrailing (h : b.IsReadable) (layout : TrailingLayout)
    (r : TrailingRegister) : (b.withTrailing layout r).IsReadable := by
  obtain ⟨displacement, operand, heq⟩ := b.exists_withTrailing_eq layout r
  rw [heq]
  exact
    { h with
      unwritten := fun u hu =>
        congrArg (fun b : Body => { b with displacement, operand }) (h.unwritten u hu) }

/-- An operation that is written out can be read if it has a source, and a register or an address
among its operands. -/
theorem isReadable_of_place (hwritten : b.operation.unwritten? = none)
    (hslot : b.operation.hasOnlyDestination = false) (hstring : b.operation.isString = false)
    (hport : b.operation.isInputOutput = false) (hfar : b.operation.isFar → b.destination = none)
    (hsource : b.source ≠ none) (hplace : ∃ o ∈ b.operands, o ≠ .immediate)
    (hsib : b.sib.IsProper) : b.IsReadable := by
  obtain ⟨o, ho, himmediate⟩ := hplace
  have hshows : o.showsWidth b.operation = true := by
    cases o with
    | register r => simp [Operand.showsWidth, hport]
    | segment s | directAddress | indirect => rfl
    | immediate => exact absurd rfl himmediate
  exact
    { unwritten := by simp [hwritten]
      onlyDestination := fun h => by simp [hslot] at h
      onlySource := fun _ h => absurd h hsource
      far := hfar
      stringWidth := fun h => by simp [hstring] at h
      width := fun _ h => absurd hshows (ne_true_of_eq_false (h o ho))
      registers := hsib }

theorem isReadable_of_isPlain (hplain : b.operation.isPlain = true) (hsource : b.source ≠ none)
    (hplace : ∃ o ∈ b.operands, o ≠ .immediate)
    (hsib : b.sib.IsProper) : b.IsReadable := by
  simp only [Operation.isPlain, Bool.and_eq_true, Option.isNone_iff_eq_none,
    Bool.not_eq_true'] at hplain
  obtain ⟨⟨⟨⟨hwritten, hslot⟩, hfar⟩, hstring⟩, hport⟩ := hplain
  exact isReadable_of_place hwritten hslot hstring hport (fun h => by simp [hfar] at h) hsource
    hplace hsib

end Body

/-! ## What an addressing byte makes -/

/-- The operations that the form is used with are plain ones. -/
def ModRmForm.IsPlain : ModRmForm → Prop
  | toMemory operation | toRegister operation | fromAddress operation
  | toRegisterImmediate operation _ => operation.isPlain = true
  | _ => True

instance : (form : ModRmForm) → Decidable form.IsPlain
  | .toMemory _ | .toRegister _ | .fromAddress _ | .toRegisterImmediate _ _ =>
      inferInstanceAs (Decidable (_ = true))
  | .toSegment | .fromSegment | .arithmetic _ | .shift _ | .unary | .incDec | .incToPush | .pop
  | .movImmediate | .coprocessor | .localDescriptor | .globalDescriptor => .isTrue trivial

theorem isPlain_arithmeticGroup (reg : Nat) : (arithmeticGroup reg).isPlain = true := by
  unfold arithmeticGroup
  split <;> rfl

theorem isPlain_of_shiftGroup? {reg : Nat} {operation : Operation}
    (h : shiftGroup? reg = some operation) : operation.isPlain = true := by
  unfold shiftGroup? at h
  split at h <;> cases h <;> rfl

theorem isPlain_of_localDescriptorGroup? {reg : Nat} {operation : Operation}
    (h : localDescriptorGroup? reg = some operation) : operation.isPlain = true := by
  unfold localDescriptorGroup? at h
  split at h <;> cases h <;> rfl

theorem isPlain_of_globalDescriptorGroup? {isRegister : Bool} {reg : Nat} {operation : Operation}
    (h : globalDescriptorGroup? isRegister reg = some operation) : operation.isPlain = true := by
  unfold globalDescriptorGroup? at h
  repeat' split at h
  all_goals cases h <;> rfl

theorem ModRm.registers_effectiveOperand {m : ModRm} (hrm : m.rm < 8) (width : Width) :
    (m.effectiveOperand width).sib.IsProper := by
  unfold effectiveOperand
  repeat' split
  · exact .inl rfl
  · exact .inr ⟨m.rm, hrm, rfl⟩
  · exact .inr ⟨m.rm, hrm, rfl⟩
  · exact .inr ⟨m.rm, hrm, rfl⟩
  · exact .inl rfl

theorem register_ne_none {width : Width} (hwidth : width = .byte ∨ width = .word) {m : ModRm}
    (hreg : m.reg < 8) : ModRmForm.select?.register width m ≠ none := by
  rcases hwidth with rfl | rfl
  · simpa [ModRmForm.select?.register, Register.ofIndex?, Register.bytes] using hreg
  · simpa [ModRmForm.select?.register, Register.ofIndex?, Register.words] using hreg

section

variable {model : Model} {width : Width} {m : ModRm} {place : Option Operand} {sib : ScaleIndexBase}
  {body : Body} {operandField : OperandField}

theorem isReadable_to {operation : Operation} (hplain : operation.isPlain = true)
    (hplace : ∃ o ∈ place, o ≠ .immediate) (hsib : sib.IsProper) {other : Option Operand}
    (hother : other ≠ none) (width : Width) (operand : UInt16) :
    Body.IsReadable { operation, width, source := other, destination := place, sib, operand } := by
  obtain ⟨o, ho, himmediate⟩ := hplace
  exact Body.isReadable_of_isPlain hplain hother
    ⟨o, Body.mem_operands.mpr (.inr ho), himmediate⟩ hsib

theorem isReadable_to_immediate {operation : Operation} (hplain : operation.isPlain = true)
    (hplace : ∃ o ∈ place, o ≠ .immediate) (hsib : sib.IsProper) (width : Width)
    (operand : UInt16) :
    Body.IsReadable
      { operation, width, source := some .immediate, destination := place, sib, operand } :=
  isReadable_to hplain hplace hsib (Option.some_ne_none _) width operand

theorem isReadable_from {operation : Operation} (hplain : operation.isPlain = true)
    (hplace : ∃ o ∈ place, o ≠ .immediate) (hsib : sib.IsProper) (other : Option Operand)
    (width : Width) :
    Body.IsReadable { operation, width, source := place, destination := other, sib } := by
  obtain ⟨o, ho, himmediate⟩ := hplace
  exact Body.isReadable_of_isPlain hplain (ne_of_eq_of_ne ho (Option.some_ne_none o))
    ⟨o, Body.mem_operands.mpr (.inl ho), himmediate⟩ hsib

theorem isReadable_far {operation : Operation} (hfar : operation.isFar = true)
    (hplace : ∃ o ∈ place, o ≠ .immediate) (hsib : sib.IsProper) (width : Width) :
    Body.IsReadable { operation, width, source := place, sib } := by
  have hlike : operation.unwritten? = none ∧ operation.hasOnlyDestination = false ∧
      operation.isString = false ∧ operation.isInputOutput = false := by
    cases operation <;> cases hfar <;> exact ⟨rfl, rfl, rfl, rfl⟩
  obtain ⟨hwritten, hslot, hstring, hport⟩ := hlike
  obtain ⟨o, ho, himmediate⟩ := hplace
  exact Body.isReadable_of_place hwritten hslot hstring hport (fun _ => rfl)
    (ne_of_eq_of_ne ho (Option.some_ne_none o))
    ⟨o, Body.mem_operands.mpr (.inl ho), himmediate⟩ hsib

theorem isReadable_of_unary (hplace : ∃ o ∈ place, o ≠ .immediate) (hsib : sib.IsProper)
    (h : ModRmForm.unary.select? model width m place = some (body, operandField)) :
    { body with sib }.IsReadable := by
  rw [ModRmForm.select?] at h
  split at h <;> cases h
  · exact isReadable_to_immediate rfl hplace hsib width 0
  · exact isReadable_from rfl hplace hsib place width
  · exact isReadable_from rfl hplace hsib place width
  · exact isReadable_from rfl hplace hsib none width
  · exact isReadable_from rfl hplace hsib none width
  · exact isReadable_from rfl hplace hsib none width
  · exact isReadable_from rfl hplace hsib none width

theorem isReadable_of_incToPush (hplace : ∃ o ∈ place, o ≠ .immediate) (hsib : sib.IsProper)
    (h : ModRmForm.incToPush.select? model width m place = some (body, operandField)) :
    { body with sib }.IsReadable := by
  rw [ModRmForm.select?] at h
  repeat' split at h
  all_goals cases h
  · exact isReadable_from rfl hplace hsib place width
  · exact isReadable_from rfl hplace hsib place width
  · exact isReadable_from rfl hplace hsib none width
  · exact isReadable_far rfl hplace hsib .dword
  · exact isReadable_from rfl hplace hsib none width
  · exact isReadable_far rfl hplace hsib .dword
  · exact isReadable_from rfl hplace hsib none width

theorem isReadable_of_shift (hplace : ∃ o ∈ place, o ≠ .immediate) (hsib : sib.IsProper)
    {count : ShiftCount}
    (h : (ModRmForm.shift count).select? model width m place = some (body, operandField)) :
    { body with sib }.IsReadable := by
  obtain ⟨operation, hoperation, hs⟩ := Option.map_eq_some_iff.mp h
  have hplain := isPlain_of_shiftGroup? hoperation
  cases count with
  | one | immediate =>
      cases hs
      exact isReadable_to_immediate hplain hplace hsib width _
  | cl =>
      cases hs
      exact isReadable_to hplain hplace hsib (Option.some_ne_none _) width 0

theorem isReadable_onlyDestination {operation : Operation} (hwritten : operation.unwritten? = none)
    (hslot : operation.hasOnlyDestination = true) (hfar : operation.isFar = false)
    (hstring : operation.isString = false)
    (hwidth : (∀ o ∈ place, o.showsWidth operation = false) → width = operation.unspokenWidth none)
    (hsib : sib.IsProper) : Body.IsReadable { operation, width, destination := place, sib } :=
  { unwritten := by simp [hwritten]
    onlyDestination := fun _ => rfl
    onlySource := fun h => by simp [hslot] at h
    far := fun h => by simp [hfar] at h
    stringWidth := fun h => by simp [hstring] at h
    width := fun _ h => hwidth fun o ho => h o (Body.mem_operands.mpr (.inr ho))
    registers := hsib }

theorem isReadable_of_select? {form : ModRmForm} (hform : form.Suits width)
    (hplain : form.IsPlain) (hreg : m.reg < 8)
    (hplace : width ≠ .implied → ∃ o ∈ place, o ≠ .immediate)
    (hsib : sib.IsProper)
    (h : form.select? model width m place = some (body, operandField)) :
    { body with sib }.IsReadable := by
  have himplied (hwidth : width = .byte ∨ width = .word) : width ≠ .implied := by
    rcases hwidth with rfl | rfl <;> exact Width.noConfusion
  cases form with
  | toMemory operation =>
      cases h
      exact isReadable_to hplain (hplace (himplied hform.2)) hsib (register_ne_none hform.2 hreg)
        width 0
  | toRegister operation =>
      cases h
      exact isReadable_from hplain (hplace (himplied hform.2)) hsib _ width
  | fromAddress operation =>
      rw [ModRmForm.select?] at h
      split at h <;> cases h
      exact isReadable_from hplain (hplace (himplied hform.2)) hsib _ width
  | toRegisterImmediate operation immediate =>
      obtain ⟨-, rfl, -⟩ := hform
      cases h
      exact isReadable_from hplain (hplace Width.noConfusion) hsib _ .word
  | toSegment =>
      obtain ⟨s, -, hs⟩ := Option.map_eq_some_iff.mp h
      cases hs
      cases hform
      exact isReadable_from rfl (hplace Width.noConfusion) hsib _ .word
  | fromSegment =>
      obtain ⟨s, -, hs⟩ := Option.map_eq_some_iff.mp h
      cases hs
      cases hform
      exact isReadable_to rfl (hplace Width.noConfusion) hsib
        (Option.some_ne_none _) .word 0
  | arithmetic immediate =>
      cases h
      exact isReadable_to_immediate (isPlain_arithmeticGroup _) (hplace (himplied hform.1)) hsib
        width 0
  | shift count => exact isReadable_of_shift (hplace (himplied hform)) hsib h
  | unary => exact isReadable_of_unary (hplace (himplied hform)) hsib h
  | incDec =>
      rw [ModRmForm.select?] at h
      split at h <;> cases h
      · exact isReadable_from rfl (hplace (himplied hform)) hsib place width
      · exact isReadable_from rfl (hplace (himplied hform)) hsib place width
  | incToPush =>
      cases hform
      exact isReadable_of_incToPush (hplace Width.noConfusion) hsib h
  | pop =>
      cases hform
      rw [ModRmForm.select?] at h
      split at h <;> cases h
      obtain ⟨o, ho, himmediate⟩ := hplace Width.noConfusion
      refine isReadable_onlyDestination rfl rfl rfl rfl (fun hhides => ?_) hsib
      have hhides := hhides o ho
      cases o with
      | immediate => exact absurd rfl himmediate
      | register r => simp [Operand.showsWidth, Operation.isInputOutput] at hhides
      | segment s | directAddress | indirect => cases hhides
  | movImmediate =>
      rw [ModRmForm.select?] at h
      split at h <;> cases h
      exact isReadable_to_immediate rfl (hplace (himplied hform)) hsib width 0
  | coprocessor =>
      cases hform
      cases h
      exact isReadable_onlyDestination rfl rfl rfl rfl (fun _ => rfl) hsib
  | localDescriptor =>
      cases hform
      obtain ⟨operation, hoperation, hs⟩ := Option.map_eq_some_iff.mp h
      cases hs
      exact isReadable_from (isPlain_of_localDescriptorGroup? hoperation)
        (hplace Width.noConfusion) hsib place .word
  | globalDescriptor =>
      cases hform
      obtain ⟨operation, hoperation, hs⟩ := Option.map_eq_some_iff.mp h
      cases hs
      exact isReadable_from (isPlain_of_globalDescriptorGroup? hoperation)
        (hplace Width.noConfusion) hsib place .word

end

theorem ModRm.isReadable_of_resolve? {model : Model} {form : ModRmForm} {width : Width} {m : ModRm}
    {body : Body} {layout : TrailingLayout} (hform : form.Suits width) (hplain : form.IsPlain)
    (hmode : m.mode < 4) (hreg : m.reg < 8) (hrm : m.rm < 8)
    (h : m.resolve? model form width = some (body, layout)) : body.IsReadable := by
  have he := suits_effectiveOperand hmode hrm (ModRmForm.ne_dword_of_suits hform)
  have hplace (hwidth : width ≠ .implied) :
      ∃ o ∈ (m.effectiveOperand width).operand, o ≠ .immediate := by
    obtain ⟨o, ho⟩ := Option.isSome_iff_exists.mp (he.isSome hwidth)
    exact ⟨o, ho, fun himmediate => he.ne_immediate (himmediate ▸ ho)⟩
  obtain ⟨⟨selected, operand⟩, hselect, hbody⟩ := Option.map_eq_some_iff.mp h
  cases hbody
  exact isReadable_of_select? hform hplain hreg hplace (registers_effectiveOperand hrm width)
    hselect

/-! ## The opcode map -/

def OpcodeShape.IsReadable : OpcodeShape → Prop
  | fixed body _ => body.IsReadable
  | modRm form _ => form.IsPlain
  | undefined | prefixByte _ | escape => True

instance : (shape : OpcodeShape) → Decidable shape.IsReadable
  | .fixed body _ => inferInstanceAs (Decidable body.IsReadable)
  | .modRm form _ => inferInstanceAs (Decidable form.IsPlain)
  | .undefined | .prefixByte _ | .escape => .isTrue trivial

theorem isReadable_primary : ∀ byte, (OpcodeMap.primary byte).shape.IsReadable :=
  forall_byte (by decide +kernel)

theorem isReadable_secondary : ∀ byte, (OpcodeMap.secondary byte).shape.IsReadable :=
  forall_byte (by decide +kernel)

theorem Opcode.isReadable_shape (opcode : Opcode) : opcode.shape.IsReadable := by
  cases opcode with
  | primary byte => exact isReadable_primary byte
  | secondary byte => exact isReadable_secondary byte

theorem Opcode.isSuited_shape (opcode : Opcode) : opcode.shape.IsSuited := by
  cases opcode with
  | primary byte => exact isSuited_primary byte
  | secondary byte => exact isSuited_secondary byte

theorem Body.IsSettled.isReadable {model : Model} {body : Body} {layout : TrailingLayout}
    (h : body.IsSettled model layout) : body.IsReadable := by
  obtain ⟨opcode, addressing, hsettled⟩ := h
  have hreadable := opcode.isReadable_shape
  have hsuited := opcode.isSuited_shape
  rcases Opcode.settled?_cases hsettled with ⟨-, hshape⟩ | ⟨form, width, byte, -, hshape, hresolve⟩
  · rw [hshape] at hreadable
    exact hreadable
  · rw [hshape] at hreadable hsuited
    exact ModRm.isReadable_of_resolve? hsuited hreadable (ModRm.mode_ofByte_lt byte)
      (ModRm.reg_ofByte_lt byte) (ModRm.rm_ofByte_lt byte) hresolve

/-- Whatever is decoded can be read. -/
theorem isReadable_of_decodeOne {model : Model} {bytes : List UInt8} {length : Nat}
    {i : Instruction} (h : decodeOne model bytes = .complete length i)
    (hdefined : i.isUndefined = false) : i.toBody.IsReadable := by
  obtain ⟨body, layout, register, hsettled, hbody⟩ := hasOrigin_of_decodeOne h hdefined
  rw [hbody]
  exact hsettled.isReadable.withTrailing layout register

end Iapx86
