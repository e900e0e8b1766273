import Iapx86.Proofs.Settled

/-!
# The length of an instruction and its trailing fields

The size of the displacement and of the operand follows from the numbers of the opcode and of the
addressing byte, as manuals list them. The same is said of the forms of the opcode map, and the two
agree (`Opcode.agreesWith_shape`). `Header` is an encoding up to its trailing bytes: when all of its
bytes are there and accepted, the trailing bytes are read as little-endian numbers and the
instruction ends with them.
-/

namespace Iapx86

open Opcode TrailingRegister

/-! ## Sizes by the numbers of the bytes -/

namespace Opcode

/-- An addressing byte follows. -/
def TakesAddressing : Opcode → Prop
  | primary byte =>
      byte < 0x40 ∧ byte % 8 < 4 ∨ 0x80 ≤ byte ∧ byte < 0x90 ∨ 0xD8 ≤ byte ∧ byte < 0xE0 ∨
      byte ∈ [0x62, 0x63, 0x69, 0x6B, 0xC0, 0xC1, 0xC4, 0xC5, 0xC6, 0xC7, 0xD0, 0xD1, 0xD2, 0xD3,
        0xF6, 0xF7, 0xFE, 0xFF]
  | secondary byte => byte < 4

/-- The bytes of the displacement, where there is no addressing byte. -/
def displacementSize : Opcode → Nat
  | primary byte =>
      if 0x70 ≤ byte ∧ byte < 0x80 ∨ byte ∈ [0xE0, 0xE1, 0xE2, 0xE3, 0xEB] then 1
      else if byte ∈ [0x9A, 0xA0, 0xA1, 0xA2, 0xA3, 0xC8, 0xE8, 0xE9, 0xEA] then 2
      else 0
  | secondary _ => 0

/-- The bytes of the operand. In two groups `reg`, the member, matters. -/
def operandSize (reg : Option Nat) : Opcode → Nat
  | primary byte =>
      if byte < 0x40 ∧ byte % 8 = 4 ∨ 0xB0 ≤ byte ∧ byte < 0xB8 ∨ byte = 0xF6 ∧ reg = some 0 ∨
          byte ∈ [0x6A, 0x6B, 0x80, 0x82, 0x83, 0xA8, 0xC0, 0xC1, 0xC6, 0xC8, 0xCD, 0xD4, 0xD5,
            0xE4, 0xE5, 0xE6, 0xE7] then 1
      else if byte < 0x40 ∧ byte % 8 = 5 ∨ 0xB8 ≤ byte ∧ byte < 0xC0 ∨
          byte = 0xF7 ∧ reg = some 0 ∨
          byte ∈ [0x68, 0x69, 0x81, 0x9A, 0xA9, 0xC2, 0xC7, 0xCA, 0xEA] then 2
      else 0
  | secondary _ => 0

/-- The operand that the opcode brings itself: a shift by one. -/
def impliedOperand : Opcode → UInt16
  | primary byte => if byte = 0xD0 ∨ byte = 0xD1 then 1 else 0
  | secondary _ => 0

/-- The opcode does not go with the addressing byte. -/
def Refuses (model : Model) (m : ModRm) : Opcode → Prop
  | primary byte => RefusesAddressing model byte m
  | secondary byte => RefusesSecondaryAddressing byte m

instance : (opcode : Opcode) → Decidable opcode.TakesAddressing
  | primary _ => inferInstanceAs (Decidable (_ ∨ _))
  | secondary byte => inferInstanceAs (Decidable (byte < 4))

instance (model : Model) (m : ModRm) : (opcode : Opcode) → Decidable (opcode.Refuses model m)
  | primary _ | secondary _ => inferInstanceAs (Decidable (_ ∨ _))

end Opcode

/-- The bytes of the displacement that the addressing byte asks for. -/
def ModRm.displacementSize (m : ModRm) : Nat :=
  if m.mode = 1 then 1 else if m.mode = 2 ∨ m.mode = 0 ∧ m.rm = 6 then 2 else 0

/-! ## Sizes by the forms of the opcode map -/

theorem ModRm.size_displacement (m : ModRm) (width : Width) (hmode : m.mode < 4) :
    (m.effectiveOperand width).displacement.size = m.displacementSize := by
  have hmodes : m.mode = 0 ∨ m.mode = 1 ∨ m.mode = 2 ∨ m.mode = 3 := by omega
  rw [effectiveOperand, displacementSize]
  rcases hmodes with h | h | h | h <;> simp only [h]
  · split <;> simp_all [DisplacementField.size]
  · rfl
  · rfl
  · rfl

namespace ModRmForm

def operandField (width : Width) (reg : Nat) : ModRmForm → OperandField
  | toRegisterImmediate _ immediate | arithmetic immediate => immediate
  | shift .immediate => .byte
  | unary => if reg = 0 then .ofWidth width else .absent
  | movImmediate => .ofWidth width
  | _ => .absent

/-- The operand that the form brings itself. -/
def impliedOperand : ModRmForm → UInt16
  | shift .one => 1
  | _ => 0

theorem fields_of_select? {model : Model} {form : ModRmForm} {width : Width} {m : ModRm}
    {place : Option Operand} {body : Body} {operand : OperandField}
    (h : form.select? model width m place = some (body, operand)) :
    operand = form.operandField width m.reg ∧ body.displacement = 0 ∧
      body.operand = form.impliedOperand := by
  cases form with
  | toMemory operation | toRegister operation | toRegisterImmediate operation immediate
  | arithmetic immediate | coprocessor =>
      cases h
      exact ⟨rfl, rfl, rfl⟩
  | toSegment | fromSegment | localDescriptor | globalDescriptor =>
      obtain ⟨_, -, hs⟩ := Option.map_eq_some_iff.mp h
      cases hs
      exact ⟨rfl, rfl, rfl⟩
  | shift count =>
      obtain ⟨_, -, hs⟩ := Option.map_eq_some_iff.mp h
      cases count <;> cases hs <;> exact ⟨rfl, rfl, rfl⟩
  | fromAddress operation | incDec | pop | movImmediate =>
      rw [select?] at h
      split at h <;> cases h <;> exact ⟨rfl, rfl, rfl⟩
  | incToPush =>
      rw [select?] at h
      repeat' split at h
      all_goals cases h <;> exact ⟨rfl, rfl, rfl⟩
  | unary =>
      rw [select?] at h
      split at h
      all_goals cases h <;> simp_all [operandField, impliedOperand]

end ModRmForm

theorem ModRm.fields_of_resolve? {model : Model} {form : ModRmForm} {width : Width} {m : ModRm}
    {body : Body} {layout : TrailingLayout}
    (h : m.resolve? model form width = some (body, layout)) :
    layout.displacement = (m.effectiveOperand width).displacement ∧
      layout.operand = form.operandField width m.reg ∧ body.displacement = 0 ∧
      body.operand = form.impliedOperand := by
  obtain ⟨⟨selected, operand⟩, hselect, hbody⟩ := Option.map_eq_some_iff.mp h
  obtain ⟨hoperand, hdisplacement, himplied⟩ := ModRmForm.fields_of_select? hselect
  cases hbody
  exact ⟨rfl, hoperand, hdisplacement, himplied⟩

namespace Opcode

/-- The map says of an opcode what the lists say. -/
def AgreesWith (opcode : Opcode) : OpcodeShape → Prop
  | .fixed body layout =>
      ¬ opcode.TakesAddressing ∧ layout.IsProper ∧
        layout.displacementSize = opcode.displacementSize ∧
        layout.operandSize = opcode.operandSize none ∧ body.displacement = 0 ∧
        body.operand = opcode.impliedOperand
  | .modRm form width =>
      opcode.TakesAddressing ∧ form.impliedOperand = opcode.impliedOperand ∧
        ∀ reg < 8, form.operandField width reg ≠ .farPointer ∧
          (form.operandField width reg).size = opcode.operandSize (some reg)
  | .undefined | .prefixByte _ | .escape => True

instance (opcode : Opcode) : (shape : OpcodeShape) → Decidable (opcode.AgreesWith shape)
  | .fixed _ _ | .modRm _ _ => inferInstanceAs (Decidable (_ ∧ _))
  | .undefined | .prefixByte _ | .escape => .isTrue trivial

theorem agreesWith_shape (opcode : Opcode) : opcode.AgreesWith opcode.shape := by
  have hprimary : ∀ byte, (primary byte).AgreesWith (primary byte).shape :=
    forall_byte (by decide +kernel)
  have hsecondary : ∀ byte, (secondary byte).AgreesWith (secondary byte).shape :=
    forall_byte (by decide +kernel)
  cases opcode with
  | primary byte => exact hprimary byte
  | secondary byte => exact hsecondary byte

theorem isDefined_shape (opcode : Opcode) : opcode.shape.isDefined := by
  cases opcode with
  | primary byte => exact isDefined_primary byte
  | secondary byte => exact isDefined_secondary byte

theorem refuses_iff {model : Model} {opcode : Opcode} {m : ModRm} {form : ModRmForm}
    {width : Width} (hshape : opcode.shape = .modRm form width) :
    opcode.Refuses model m ↔ form.Refuses model m := by
  cases opcode with
  | primary byte => exact refusesAddressing_iff hshape
  | secondary byte => exact refusesSecondaryAddressing_iff hshape

theorem resolve?_eq_none_iff {model : Model} {opcode : Opcode} {byte : UInt8} {form : ModRmForm}
    {width : Width} (hshape : opcode.shape = .modRm form width) :
    (ModRm.ofByte byte).resolve? model form width = none ↔
      opcode.Refuses model (.ofByte byte) := by
  rw [ModRm.resolve?_eq_none_iff _ _ _ _ (ModRm.reg_ofByte_lt byte), refuses_iff hshape]

theorem exists_resolve? {model : Model} {opcode : Opcode} {byte : UInt8} {form : ModRmForm}
    {width : Width} (hshape : opcode.shape = .modRm form width)
    (haccepts : ¬ opcode.Refuses model (.ofByte byte)) :
    ∃ body layout, (ModRm.ofByte byte).resolve? model form width = some (body, layout) := by
  rw [← resolve?_eq_none_iff hshape] at haccepts
  obtain ⟨⟨body, layout⟩, hresolve⟩ := Option.ne_none_iff_exists'.mp haccepts
  exact ⟨body, layout, hresolve⟩

end Opcode

/-! ## The header -/

/-- An encoding up to its trailing bytes. -/
structure Header where
  /-- The bytes before the opcode. -/
  run : List UInt8 := []
  opcode : Opcode
  addressing : Option UInt8 := none
  scaleIndexBase : Option UInt8 := none
  deriving Repr

namespace Header

/-- From the opcode on. -/
def head (header : Header) : List UInt8 :=
  header.opcode.bytes ++ (header.addressing.toList ++ header.scaleIndexBase.toList)

def bytes (header : Header) : List UInt8 := header.run ++ header.head

def displacementSize (header : Header) : Nat :=
  match header.addressing with
  | none => header.opcode.displacementSize
  | some byte => (ModRm.ofByte byte).displacementSize

def operandSize (header : Header) : Nat :=
  header.opcode.operandSize (header.addressing.map fun byte => (ModRm.ofByte byte).reg)

/-- All bytes that belong there are there, and the model accepts them. -/
structure IsAccepted (model : Model) (header : Header) : Prop where
  length_run : header.run.length ≤ 14
  isPrefix : ∀ byte ∈ header.run, IsPrefix model byte
  isLegal : header.opcode.IsLegal model
  isSome_addressing : header.addressing.isSome ↔ header.opcode.TakesAddressing
  not_refuses : ∀ byte ∈ header.addressing, ¬ header.opcode.Refuses model (.ofByte byte)
  isSome_scaleIndexBase : header.scaleIndexBase.isSome ↔ 0x67 ∈ header.run ∧
    ∃ byte ∈ header.addressing, (ModRm.ofByte byte).mode ≠ 3 ∧ (ModRm.ofByte byte).rm = 4

theorem takesScaleIndexBase_passing_new (model : Model) (run : List UInt8) (m : ModRm) :
    ((Decoder.new model).passing run).takesScaleIndexBase m = true ↔
      0x67 ∈ run ∧ m.mode ≠ 3 ∧ m.rm = 4 := by
  rw [Decoder.takesScaleIndexBase, Decoder.prefixes_passing_new, Prefixes.ofRun]
  by_cases hwide : 0x67 ∈ run <;> simp [hwide, ModRm.isRegister]

theorem IsAccepted.settles {model : Model} {header : Header} (h : header.IsAccepted model) :
    ∃ body layout, ((Decoder.new model).passing header.run).Settles header.head body layout ∧
      layout.IsProper ∧ layout.displacementSize = header.displacementSize ∧
      layout.operandSize = header.operandSize ∧ body.displacement = 0 ∧
      body.operand = header.opcode.impliedOperand ∧ body.operation ≠ .undefined := by
  obtain ⟨run, opcode, addressing, sib⟩ := header
  have hagrees := opcode.agreesWith_shape
  have haddressing := h.isSome_addressing
  have hsib := h.isSome_scaleIndexBase
  have hdefined := opcode.isDefined_shape
  rcases h.isLegal.shape_cases with ⟨body, layout, hshape⟩ | ⟨form, width, hshape⟩
  -- An opcode that says it all: the header ends with it.
  · rw [hshape] at hagrees hdefined
    obtain ⟨hnone, hproper, hdisplacement, hoperand, hzero, himplied⟩ := hagrees
    obtain rfl : addressing = none := by simpa [hnone] using haddressing
    obtain rfl : sib = none := by simpa using hsib
    have hhead : Header.head { run, opcode } = opcode.bytes := List.append_nil _
    refine ⟨body, layout, ?_, hproper, hdisplacement, hoperand, hzero, himplied,
      of_decide_eq_true hdefined⟩
    rw [hhead]
    exact .fixed h.isLegal hshape
  -- An opcode with an addressing byte that it does not refuse, so it is resolved.
  · rw [hshape] at hagrees hdefined
    obtain ⟨htakes, himplied, hsizes⟩ := hagrees
    obtain ⟨byte, rfl⟩ := Option.isSome_iff_exists.mp (haddressing.mpr htakes)
    have hsize := hsizes _ (ModRm.reg_ofByte_lt byte)
    obtain ⟨body, layout, hresolve⟩ := Opcode.exists_resolve? hshape (h.not_refuses byte rfl)
    obtain ⟨hdisplacement, hoperand, hzero, hbody⟩ := ModRm.fields_of_resolve? hresolve
    have hnotFar : layout.operand ≠ .farPointer := hoperand ▸ hsize.1
    refine ⟨body, layout, ?_, fun hfar => absurd hfar hnotFar, ?_, ?_, hzero, hbody.trans himplied,
      ModRm.operation_of_resolve? hdefined hresolve⟩
    · have hwide := takesScaleIndexBase_passing_new model run (.ofByte byte)
      cases sib with
      | none =>
          refine .addressed h.isLegal hshape hresolve ?_
          rw [← Bool.not_eq_true, hwide]
          simpa using hsib
      | some sib =>
          refine .scaled h.isLegal hshape hresolve ?_
          rw [hwide]
          simpa using hsib
    · rw [TrailingLayout.displacementSize, if_neg hnotFar, hdisplacement]
      exact ModRm.size_displacement _ width (ModRm.mode_ofByte_lt byte)
    · rw [TrailingLayout.operandSize, if_neg hnotFar, hoperand]
      exact hsize.2

end Header

/-- Behind an accepted header come the displacement and then the operand, each as long as the lists
say. While they are not all there, the number of missing bytes is known; when they are, the
instruction ends with them, and they are read as little-endian numbers. A displacement has a sign.
An operand of one byte has a sign if it stands for a word and is neither the address of an input or
output nor the distance of a shift. Where no operand follows, it is one for a shift by one and zero
otherwise. -/
theorem decodeOne_of_header (model : Model) (header : Header) (haccepted : header.IsAccepted model)
    (bytes : List UInt8) (hbytes : header.bytes <+: bytes) :
    let h := header.bytes.length
    let d := header.displacementSize
    let o := header.operandSize
    let displacement := (bytes.drop h).take d
    let operand := (bytes.drop (h + d)).take o
    (bytes.length < h + d + o →
      decodeOne model bytes = .needMore (h + d + o - bytes.length)) ∧
    (h + d + o ≤ bytes.length →
      ∃ i, decodeOne model bytes = .complete (h + d + o) i ∧ i.isUndefined = false ∧
        i.displacement.toInt = signedLittleEndian displacement ∧
        if o = 0 then i.operand = header.opcode.impliedOperand
        else if o = 1 ∧ i.width = .word ∧ ¬ i.operation.isInputOutput ∧ ¬ i.operation.isShift then
          i.operand.toInt16.toInt = signedLittleEndian operand
        else i.operand.toNat = littleEndian operand) := by
  intro h d o displacement operand
  obtain ⟨body, layout, hsettles, hproper, hd, ho, hzero, himplied, hdefined⟩ := haccepted.settles
  obtain ⟨tail, rfl⟩ := hbytes
  have hlength : header.run.length + header.head.length = h := List.length_append.symm
  have hdecode : decodeOne model (header.bytes ++ tail) =
      settledAnswer (.ofRun header.run) h body layout tail := by
    rw [← hlength, Header.bytes, List.append_assoc]
    exact decodeOne_of_settles haccepted.isPrefix haccepted.length_run hsettles tail
  rw [settledAnswer_of_isProper _ _ _ hproper, hd, ho] at hdecode
  have hdisplacement : displacement = tail.take d := congrArg _ List.drop_left
  have hoperand : operand = (tail.drop d).take o := by
    change ((header.bytes ++ tail).drop (h + d)).take o = _
    rw [← List.drop_drop, List.drop_left]
  rw [List.length_append]
  constructor
  · intro hshort
    rw [hdecode, if_pos (by omega)]
    congr 1
    omega
  · intro hlong
    have hd2 : d ≤ 2 := (hd ▸ layout.displacementSize_le : header.displacementSize ≤ 2)
    have ho2 : o ≤ 2 := (ho ▸ layout.operandSize_le : header.operandSize ≤ 2)
    have hlengthDisplacement : displacement.length ≤ 2 := by
      rw [hdisplacement, List.length_take]
      omega
    have hlengthOperand : operand.length = o := by
      rw [hoperand, List.length_take, List.length_drop]
      omega
    refine ⟨_, hdecode.trans (if_neg (by omega)), decide_eq_false hdefined, ?_, ?_⟩
    · rw [← hdisplacement]
      exact Body.toInt_displacement_withFields hzero hlengthDisplacement _
    · have hfield := body.operand_withFields displacement (hlengthOperand.trans_le ho2)
      rw [← hdisplacement, ← hoperand]
      simp only [hlengthOperand, himplied, Body.signsByteOperand_iff] at hfield
      exact hfield

/-- A word in memory and a byte with a sign, behind a wide address and another segment. -/
theorem decodeOne_of_header_orMemory :
    let header : Header :=
      { run := [0x26, 0x67], opcode := .primary 0x83, addressing := some 0x8C,
        scaleIndexBase := some 0x25 }
    let bytes := [0x26, 0x67, 0x83, 0x8C, 0x25, 0x34]
    header.IsAccepted .i80386 ∧ header.bytes <+: bytes ∧
      decodeOne .i80386 bytes = .needMore 2 ∧
      ∃ i, decodeOne .i80386 (bytes ++ [0xF2, 0xFE]) = .complete 8 i ∧
        i.displacement.toInt = -0x0DCC ∧ i.operand.toInt16.toInt = -2 := by
  intro header bytes
  have haccepted : header.IsAccepted .i80386 :=
    { length_run := by decide
      isPrefix := by decide +kernel
      isLegal := by decide +kernel
      isSome_addressing := by decide
      not_refuses := by
        rintro _ ⟨⟩
        decide
      isSome_scaleIndexBase := by
        refine iff_of_true rfl ⟨by decide, 0x8C, rfl, ?_⟩
        decide }
  have hbytes : header.bytes <+: bytes := ⟨[0x34], rfl⟩
  have hshort := decodeOne_of_header .i80386 header haccepted bytes hbytes
  have hlong := decodeOne_of_header .i80386 header haccepted (bytes ++ [0xF2, 0xFE])
    ⟨[0x34, 0xF2, 0xFE], rfl⟩
  obtain ⟨i, hdecode, -, hdisplacement, hoperand⟩ := hlong.2 (by decide)
  have hone : decodeOne .i80386 (bytes ++ [0xF2, 0xFE]) = .complete 8
      { operation := .or, source := some .immediate, destination := some .indirect, width := .word,
        sib := { index := some .si }, displacement := -0x0DCC, operand := 0xFFFE,
        segmentOverride := some .es, addressSize := .bits32 } := by
    decide +kernel
  obtain rfl := (DecodeResult.complete.inj (hdecode.symm.trans hone)).2
  refine ⟨haccepted, hbytes, hshort.1 (by decide), _, hdecode, ?_, ?_⟩
  · exact hdisplacement.trans (by decide)
  · rw [if_neg (by decide), if_pos (by decide)] at hoperand
    exact hoperand.trans (by decide)

end Iapx86
