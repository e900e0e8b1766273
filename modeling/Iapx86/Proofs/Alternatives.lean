import Iapx86.Proofs.Header

/-!
# Alternative encodings

Many instructions have more than one encoding, and `Alternative` lists the pairs: the short forms
that work on the accumulator or have a register in the opcode, the forms with a byte that stands for
a word, the shift by one, and operations on two registers, which can be read in both directions. An
encoding and its alternative are encodings of one instruction (`Alternative.encodes`), and an
encoding is decoded to what it encodes (`Encodes.decodeOne_eq`).

Most pairs differ in nothing but their way to the same settled instruction, and have the same
trailing bytes (`Agree`). In the others a trailing byte stands for a word or for the distance that
the opcode implies, so it is the values of the fields that have to be compared.
-/

namespace Iapx86

open Opcode

/-! ## What a first byte settles -/

namespace Opcode

/-- The instruction that an opcode makes with the addressing byte, if it takes one, but for the
trailing bytes. -/
def settled? (model : Model) (opcode : Opcode) (addressing : Option UInt8) :
    Option (Body × TrailingLayout) :=
  match opcode.shape, addressing with
  | .fixed body layout, none => some (body, layout)
  | .modRm form width, some byte => (ModRm.ofByte byte).resolve? model form width
  | _, _ => none

variable {model : Model} {opcode : Opcode} {addressing : Option UInt8} {body : Body}
  {layout : TrailingLayout}

theorem settled?_cases (h : opcode.settled? model addressing = some (body, layout)) :
    addressing = none ∧ opcode.shape = .fixed body layout ∨
      ∃ form width byte, addressing = some byte ∧ opcode.shape = .modRm form width ∧
        (ModRm.ofByte byte).resolve? model form width = some (body, layout) := by
  unfold settled? at h
  split at h
  · next hshape =>
      cases h
      exact .inl ⟨rfl, hshape⟩
  · next form width byte hshape => exact .inr ⟨form, width, byte, rfl, hshape, h⟩
  · cases h

theorem isLegal_of_settled? {byte : UInt8} (hknown : IsKnown model byte)
    (h : (primary byte).settled? model addressing = some (body, layout)) :
    (primary byte).IsLegal model := by
  rcases settled?_cases h with ⟨-, hshape⟩ | ⟨_, _, _, -, hshape, -⟩
  all_goals
    rw [shape] at hshape
    exact isLegal_of_shape hknown (by simp [modifier?, hshape]) (by simp [hshape])

theorem isProper_of_settled? (h : opcode.settled? model addressing = some (body, layout)) :
    layout.IsProper := by
  have hagrees := opcode.agreesWith_shape
  rcases settled?_cases h with ⟨-, hshape⟩ | ⟨form, width, byte, -, hshape, hresolve⟩
  · rw [hshape] at hagrees
    exact hagrees.2.1
  · rw [hshape] at hagrees
    intro hfar
    have hoperand := (ModRm.fields_of_resolve? hresolve).2.1
    exact absurd (hoperand.symm.trans hfar) (hagrees.2.2 _ (ModRm.reg_ofByte_lt byte)).1

theorem operation_of_settled? (h : opcode.settled? model addressing = some (body, layout)) :
    body.operation ≠ .undefined := by
  have hdefined := opcode.isDefined_shape
  rcases settled?_cases h with ⟨-, hshape⟩ | ⟨form, width, byte, -, hshape, hresolve⟩
  · rw [hshape] at hdefined
    exact of_decide_eq_true hdefined
  · rw [hshape] at hdefined
    exact ModRm.operation_of_resolve? hdefined hresolve

theorem settles_of_settled? {d : Decoder} (hsib : ∀ m, d.takesScaleIndexBase m = false)
    (hlegal : opcode.IsLegal d.model)
    (h : opcode.settled? d.model addressing = some (body, layout)) :
    d.Settles (opcode.bytes ++ addressing.toList) body layout := by
  rcases settled?_cases h with ⟨rfl, hshape⟩ | ⟨form, width, byte, rfl, hshape, hresolve⟩
  · rw [Option.toList_none, List.append_nil]
    exact .fixed hlegal hshape
  · exact .addressed hlegal hshape hresolve (hsib _)

end Opcode

/-- The bytes are an encoding of the instruction. -/
inductive Encodes (model : Model) : List UInt8 → Body → Prop
  | intro {byte : UInt8} {addressing : Option UInt8} {displacement operand : List UInt8}
      {body : Body} {layout : TrailingLayout} (hknown : IsKnown model byte)
      (hsettled : (primary byte).settled? model addressing = some (body, layout))
      (hd : displacement.length = layout.displacementSize)
      (ho : operand.length = layout.operandSize) :
      Encodes model (byte :: (addressing.toList ++ (displacement ++ operand)))
        (body.withFields displacement operand)

theorem Encodes.operation {model : Model} {bytes : List UInt8} {body : Body}
    (h : Encodes model bytes body) : body.operation ≠ .undefined := by
  obtain @⟨_, _, displacement, operand, body, _, -, hsettled, -, -⟩ := h
  change body.operation ≠ .undefined
  exact operation_of_settled? hsettled

theorem Encodes.decodeOne_eq {model : Model} {run bytes : List UInt8} {body : Body}
    (h : Encodes model bytes body) (hrun : ∀ byte ∈ run, IsPrefix model byte ∧ byte ≠ 0x67)
    (hlength : run.length ≤ 14) :
    decodeOne model (run ++ bytes) =
      .complete (run.length + bytes.length) { toPrefixes := .ofRun run, toBody := body } := by
  obtain @⟨byte, addressing, displacement, operand, body, layout, hknown, hsettled, hd, ho⟩ := h
  have hsib (m : ModRm) : ((Decoder.new model).passing run).takesScaleIndexBase m = false := by
    rw [← Bool.not_eq_true, Header.takesScaleIndexBase_passing_new]
    exact fun hwide => (hrun _ hwide.1).2 rfl
  have hsettles := settles_of_settled? hsib (isLegal_of_settled? hknown hsettled) hsettled
  have hdecode := decodeOne_of_settles (fun byte hbyte => (hrun byte hbyte).1) hlength hsettles
    (displacement ++ operand)
  rw [settledAnswer_of_isProper _ _ _ (isProper_of_settled? hsettled), ← hd, ← ho,
    if_neg (by simp), List.take_left, List.drop_left, List.take_length] at hdecode
  have hbytes : (primary byte).bytes ++ addressing.toList ++ (displacement ++ operand) =
      byte :: (addressing.toList ++ (displacement ++ operand)) := List.append_assoc _ _ _
  rw [← hbytes, hdecode]
  congr 1
  simp only [List.length_append]
  omega

/-! ## The pairs -/

/-- The addressing byte that names two registers, or a register and the member of a group. -/
def registerByte (reg rm : UInt8) : UInt8 := 0xC0 + 8 * reg + rm

/-- Short forms with a register in the opcode: the opcode of the first register, the long form, the
member of its group, and the number of trailing bytes. -/
def registerForms : List (UInt8 × UInt8 × UInt8 × Nat) :=
  [ (0x40, 0xFF, 0, 0), (0x48, 0xFF, 1, 0), (0x50, 0xFF, 6, 0), (0x58, 0x8F, 0, 0),
    (0xB0, 0xC6, 0, 1), (0xB8, 0xC7, 0, 2) ]

/-- Two encodings of one instruction. The displacement that an addressing byte asks for is part of
them, and so are immediate values and addresses. -/
inductive Alternative : List UInt8 → List UInt8 → Prop
  | onRegister {short long member r : UInt8} {operand : List UInt8}
      (h : (short, long, member, operand.length) ∈ registerForms) (hr : r < 8) :
      Alternative ((short + r) :: operand) (long :: registerByte member r :: operand)
  | exchange {r : UInt8} (hr : r < 8) (hne : r ≠ 0) :
      Alternative [0x90 + r] [0x87, registerByte r 0]
  | arithmeticOnAccumulator {column long k : UInt8} {operand : List UInt8}
      (h : (column, long, operand.length) ∈ [(4, 0x80, 1), (5, 0x81, 2)]) (hk : k < 8) :
      Alternative ((8 * k + column) :: operand) (long :: registerByte k 0 :: operand)
  | testOnAccumulator {short long : UInt8} {operand : List UInt8}
      (h : (short, long, operand.length) ∈ [(0xA8, 0xF6, 1), (0xA9, 0xF7, 2)]) :
      Alternative (short :: operand) (long :: registerByte 0 0 :: operand)
  | accumulatorMemory {short long : UInt8}
      (h : (short, long) ∈ [(0xA0, 0x8A), (0xA1, 0x8B), (0xA2, 0x88), (0xA3, 0x89)])
      (low high : UInt8) : Alternative [short, low, high] [long, 0x06, low, high]
  | twoRegisters {opcode r s : UInt8}
      (h : opcode < 0x40 ∧ opcode % 8 < 2 ∨ opcode = 0x88 ∨ opcode = 0x89) (hr : r < 8)
      (hs : s < 8) : Alternative [opcode, registerByte r s] [opcode + 2, registerByte s r]
  | arithmeticByte (m : UInt8) {displacement : List UInt8}
      (hd : displacement.length = (ModRm.ofByte m).displacementSize) (value : UInt8) :
      Alternative (0x82 :: m :: (displacement ++ [value])) (0x80 :: m :: (displacement ++ [value]))
  | arithmeticSigned (m : UInt8) {displacement : List UInt8}
      (hd : displacement.length = (ModRm.ofByte m).displacementSize) (value : UInt8) :
      Alternative (0x83 :: m :: (displacement ++ [value]))
        (0x81 :: m :: (displacement ++ signedBytes value))
  | imulSigned (m : UInt8) {displacement : List UInt8}
      (hd : displacement.length = (ModRm.ofByte m).displacementSize) (value : UInt8) :
      Alternative (0x6B :: m :: (displacement ++ [value]))
        (0x69 :: m :: (displacement ++ signedBytes value))
  | pushSigned (value : UInt8) : Alternative [0x6A, value] (0x68 :: signedBytes value)
  | jumpSigned (distance : UInt8) : Alternative [0xEB, distance] (0xE9 :: signedBytes distance)
  | shiftByOne {one immediate : UInt8} (h : (one, immediate) ∈ [(0xD0, 0xC0), (0xD1, 0xC1)])
      (m : UInt8) (hmember : (ModRm.ofByte m).reg ≠ 6) {displacement : List UInt8}
      (hd : displacement.length = (ModRm.ofByte m).displacementSize) :
      Alternative (one :: m :: displacement) (immediate :: m :: (displacement ++ [1]))

/-! ## Pairs with the same trailing bytes -/

/-- Two ways to the same instruction with as many trailing bytes. -/
def Agree (model : Model) (x : UInt8) (a : Option UInt8) (y : UInt8) (c : Option UInt8)
    (displacement operand : Nat) : Prop :=
  ∃ settled ∈ (primary x).settled? model a, settled ∈ (primary y).settled? model c ∧
    settled.2.displacementSize = displacement ∧ settled.2.operandSize = operand

instance (model : Model) (x : UInt8) (a : Option UInt8) (y : UInt8) (c : Option UInt8)
    (displacement operand : Nat) : Decidable (Agree model x a y c displacement operand) :=
  inferInstanceAs (Decidable (∃ _ ∈ _, _))

section

variable {model : Model} {x y : UInt8} {a c : Option UInt8}

theorem Agree.encodes (displacement operand : List UInt8)
    (h : Agree model x a y c displacement.length operand.length) (hx : IsKnown model x)
    (hy : IsKnown model y) :
    ∃ body, Encodes model (x :: (a.toList ++ (displacement ++ operand))) body ∧
      Encodes model (y :: (c.toList ++ (displacement ++ operand))) body := by
  obtain ⟨⟨body, layout⟩, ha, hc, hd, ho⟩ := h
  exact ⟨_, .intro hx ha hd.symm ho.symm, .intro hy hc hd.symm ho.symm⟩

theorem agree_registerForms (model : Model) : ∀ r : UInt8, r < 8 → ∀ row ∈ registerForms,
    Agree model (row.1 + r) none row.2.1 (some (registerByte row.2.2.1 r)) 0 row.2.2.2 := by
  cases model <;> exact forall_byte (by decide +kernel)

theorem agree_exchange (model : Model) : ∀ r : UInt8, r < 8 → r ≠ 0 →
    Agree model (0x90 + r) none 0x87 (some (registerByte r 0)) 0 0 := by
  cases model <;> exact forall_byte (by decide +kernel)

theorem agree_arithmeticOnAccumulator (model : Model) : ∀ k : UInt8, k < 8 →
    ∀ row ∈ [((4 : UInt8), (0x80 : UInt8), 1), (5, 0x81, 2)],
      Agree model (8 * k + row.1) none row.2.1 (some (registerByte k 0)) 0 row.2.2 := by
  cases model <;> exact forall_byte (by decide +kernel)

theorem agree_testOnAccumulator (model : Model) :
    ∀ row ∈ [((0xA8 : UInt8), (0xF6 : UInt8), 1), (0xA9, 0xF7, 2)],
      Agree model row.1 none row.2.1 (some (registerByte 0 0)) 0 row.2.2 := by
  cases model <;> decide +kernel

theorem agree_accumulatorMemory (model : Model) {short long : UInt8}
    (h : (short, long) ∈ [(0xA0, 0x8A), (0xA1, 0x8B), (0xA2, 0x88), (0xA3, 0x89)]) :
    Agree model short none long (some 0x06) 2 0 := by
  simp only [List.mem_cons, List.not_mem_nil, or_false, Prod.mk.injEq] at h
  rcases h with ⟨rfl, rfl⟩ | ⟨rfl, rfl⟩ | ⟨rfl, rfl⟩ | ⟨rfl, rfl⟩
  all_goals cases model <;> decide +kernel

theorem ofByte_registerByte {reg rm : UInt8} (hreg : reg < 8) (hrm : rm < 8) :
    ModRm.ofByte (registerByte reg rm) = ⟨3, reg.toNat, rm.toNat⟩ := by
  rw [UInt8.lt_iff_toNat_lt] at hreg hrm
  have hreg : reg.toNat < 8 := hreg
  have hrm : rm.toNat < 8 := hrm
  simp only [ModRm.ofByte, registerByte, ModRm.mk.injEq, UInt8.toNat_add, UInt8.toNat_mul,
    UInt8.toNat_ofNat]
  omega

/-- The opcode that takes the same two operands in the other direction. -/
def turned? : OpcodeShape → Option OpcodeShape
  | .modRm (.toMemory operation) width => some (.modRm (.toRegister operation) width)
  | _ => none

theorem turned?_shape : ∀ opcode : UInt8,
    opcode < 0x40 ∧ opcode % 8 < 2 ∨ opcode = 0x88 ∨ opcode = 0x89 →
    turned? (primary opcode).shape = some (primary (opcode + 2)).shape :=
  forall_byte (by decide +kernel)

theorem agree_twoRegisters (model : Model) {opcode r s : UInt8}
    (h : opcode < 0x40 ∧ opcode % 8 < 2 ∨ opcode = 0x88 ∨ opcode = 0x89) (hr : r < 8)
    (hs : s < 8) :
    Agree model opcode (some (registerByte r s)) (opcode + 2) (some (registerByte s r)) 0 0 := by
  have hturned := turned?_shape opcode h
  unfold turned? at hturned
  split at hturned
  · next operation width hshape =>
      have hshape' := (Option.some.inj hturned).symm
      refine ⟨({ operation, width, source := (Register.ofIndex? width r.toNat).map .register,
                 destination := (Register.ofIndex? width s.toNat).map .register }, {}),
        ?_, ?_, rfl, rfl⟩
      · simp only [settled?, hshape, ofByte_registerByte hr hs]
        rfl
      · simp only [settled?, hshape', ofByte_registerByte hs hr]
        rfl
  · cases hturned

/-! ## Pairs with other trailing bytes -/

variable {m : UInt8} {width : Width} {displacement operand : List UInt8}

theorem Encodes.ofFixed {body : Body} {layout : TrailingLayout}
    (displacement operand : List UInt8) (hx : IsKnown model x)
    (hshape : (primary x).shape = .fixed body layout)
    (hd : displacement.length = layout.displacementSize)
    (ho : operand.length = layout.operandSize) :
    Encodes model (x :: (displacement ++ operand)) (body.withFields displacement operand) := by
  have hsettled : (primary x).settled? model none = some (body, layout) := by
    simp only [settled?, hshape]
  exact .intro hx hsettled hd ho

theorem Encodes.ofResolve {form : ModRmForm} {body : Body} {layout : TrailingLayout}
    (hx : IsKnown model x)
    (hshape : (primary x).shape = .modRm form width)
    (hresolve : (ModRm.ofByte m).resolve? model form width = some (body, layout))
    (hd : displacement.length = (ModRm.ofByte m).displacementSize)
    (ho : operand.length = (form.operandField width (ModRm.ofByte m).reg).size) :
    Encodes model (x :: m :: (displacement ++ operand)) (body.withFields displacement operand) := by
  have hsettled : (primary x).settled? model (some m) = some (body, layout) := by
    simpa only [settled?, hshape] using hresolve
  obtain ⟨hfield, hoperand, -, -⟩ := ModRm.fields_of_resolve? hresolve
  have hnotFar : layout.operand ≠ .farPointer := by
    have hagrees := (primary x).agreesWith_shape
    rw [hshape] at hagrees
    exact hoperand ▸ (hagrees.2.2 _ (ModRm.reg_ofByte_lt m)).1
  apply Encodes.intro hx hsettled
  · rw [hd, TrailingLayout.displacementSize, if_neg hnotFar, hfield,
      ModRm.size_displacement _ _ (ModRm.mode_ofByte_lt m)]
  · rw [ho, TrailingLayout.operandSize, if_neg hnotFar, hoperand]

/-- A form with a byte that stands for a word has the same form with the word beside it. -/
theorem encodes_signed (form : OperandField → ModRmForm) {body : Body} {field : DisplacementField}
    (hx : IsKnown model x) (hy : IsKnown model y)
    (hshapex : (primary x).shape = .modRm (form .byte) .word)
    (hshapey : (primary y).shape = .modRm (form .word) .word)
    (hresolve : ∀ operand, (ModRm.ofByte m).resolve? model (form operand) .word =
      some (body, { displacement := field, operand }))
    (hfield : ∀ operand reg, (form operand).operandField .word reg = operand)
    (hsigned : body.signsByteOperand = true)
    (hd : displacement.length = (ModRm.ofByte m).displacementSize) (value : UInt8) :
    ∃ body, Encodes model (x :: m :: (displacement ++ [value])) body ∧
      Encodes model (y :: m :: (displacement ++ signedBytes value)) body := by
  refine ⟨body.withFields displacement [value], .ofResolve hx hshapex (hresolve _) hd ?_, ?_⟩
  · rw [hfield]
    rfl
  · rw [← Body.withFields_signedBytes_operand hsigned]
    refine .ofResolve hy hshapey (hresolve _) hd ?_
    rw [hfield]
    rfl

theorem encodes_arithmeticSigned (hx : IsKnown model 0x83) (hy : IsKnown model 0x81)
    (hd : displacement.length = (ModRm.ofByte m).displacementSize) (value : UInt8) :
    ∃ body, Encodes model (0x83 :: m :: (displacement ++ [value])) body ∧
      Encodes model (0x81 :: m :: (displacement ++ signedBytes value)) body := by
  refine encodes_signed .arithmetic hx hy rfl rfl (fun _ => rfl) (fun _ _ => rfl) ?_ hd value
  rw [Body.signsByteOperand_iff]
  dsimp only
  unfold arithmeticGroup
  split <;> decide

theorem encodes_imulSigned (hx : IsKnown model 0x6B) (hy : IsKnown model 0x69)
    (hd : displacement.length = (ModRm.ofByte m).displacementSize) (value : UInt8) :
    ∃ body, Encodes model (0x6B :: m :: (displacement ++ [value])) body ∧
      Encodes model (0x69 :: m :: (displacement ++ signedBytes value)) body :=
  encodes_signed (.toRegisterImmediate .imul) hx hy rfl rfl (fun _ => rfl) (fun _ _ => rfl) rfl hd
    value

theorem encodes_pushSigned (hx : IsKnown model 0x6A) (hy : IsKnown model 0x68) (value : UInt8) :
    ∃ body, Encodes model [0x6A, value] body ∧ Encodes model (0x68 :: signedBytes value) body := by
  have hshort := Encodes.ofFixed [] [value] hx rfl rfl rfl
  have hlong := Encodes.ofFixed [] (signedBytes value) hy rfl rfl rfl
  rw [Body.withFields_signedBytes_operand rfl] at hlong
  exact ⟨_, hshort, hlong⟩

theorem encodes_jumpSigned (hx : IsKnown model 0xEB) (hy : IsKnown model 0xE9)
    (distance : UInt8) :
    ∃ body, Encodes model [0xEB, distance] body ∧
      Encodes model (0xE9 :: signedBytes distance) body := by
  have hshort := Encodes.ofFixed [distance] [] hx rfl rfl rfl
  have hlong := Encodes.ofFixed (signedBytes distance) [] hy rfl rfl rfl
  rw [Body.withFields_signedBytes_displacement] at hlong
  exact ⟨_, hshort, hlong⟩

theorem exists_shiftGroup? : ∀ reg < 8, reg ≠ 6 →
    ∃ operation ∈ shiftGroup? reg, operation.isShift = true := by
  decide

theorem encodes_shiftByOne (hx : IsKnown model x) (hy : IsKnown model y)
    (hshapex : (primary x).shape = .modRm (.shift .one) width)
    (hshapey : (primary y).shape = .modRm (.shift .immediate) width)
    (hmember : (ModRm.ofByte m).reg ≠ 6)
    (hd : displacement.length = (ModRm.ofByte m).displacementSize) :
    ∃ body, Encodes model (x :: m :: displacement) body ∧
      Encodes model (y :: m :: (displacement ++ [1])) body := by
  obtain ⟨operation, hoperation, hshift⟩ := exists_shiftGroup? _ (ModRm.reg_ofByte_lt m) hmember
  -- The two differ in the distance that is there before the trailing bytes, and in nothing else.
  let place := (ModRm.ofByte m).effectiveOperand width
  let body : Body :=
    { operation, width, source := some .immediate, destination := place.operand, sib := place.sib }
  have hone : (ModRm.ofByte m).resolve? model (.shift .one) width =
      some ({ body with operand := 1 }, { displacement := place.displacement }) := by
    simp only [ModRm.resolve?, ModRmForm.select?, Option.mem_def.mp hoperation]
    rfl
  have himmediate : (ModRm.ofByte m).resolve? model (.shift .immediate) width =
      some (body, { displacement := place.displacement, operand := .byte }) := by
    simp only [ModRm.resolve?, ModRmForm.select?, Option.mem_def.mp hoperation]
    rfl
  have hunsigned : body.signsByteOperand = false := by
    rw [← Bool.not_eq_true, Body.signsByteOperand_iff]
    exact fun hsigned => hsigned.2.2 hshift
  have hbody : { body with operand := 1 }.withFields displacement [] =
      body.withFields displacement [1] := by
    simp [Body.withFields, hunsigned]
  refine ⟨body.withFields displacement [1], ?_, .ofResolve hy hshapey himmediate hd rfl⟩
  have hencodes := Encodes.ofResolve hx hshapex hone hd (List.length_nil (α := UInt8))
  rwa [List.append_nil, hbody] at hencodes

end

/-! ## Decoding -/

theorem Alternative.encodes {model : Model} {a b : List UInt8} (h : Alternative a b)
    (ha : ∀ byte ∈ a.head?, IsKnown model byte) (hb : ∀ byte ∈ b.head?, IsKnown model byte) :
    ∃ body, Encodes model a body ∧ Encodes model b body := by
  cases h with
  | onRegister h hr =>
      have hagree := agree_registerForms model _ hr _ h
      exact hagree.encodes [] _ (ha _ rfl) (hb _ rfl)
  | exchange hr hne =>
      have hagree := agree_exchange model _ hr hne
      exact hagree.encodes [] [] (ha _ rfl) (hb _ rfl)
  | arithmeticOnAccumulator h hk =>
      have hagree := agree_arithmeticOnAccumulator model _ hk _ h
      exact hagree.encodes [] _ (ha _ rfl) (hb _ rfl)
  | testOnAccumulator h =>
      have hagree := agree_testOnAccumulator model _ h
      exact hagree.encodes [] _ (ha _ rfl) (hb _ rfl)
  | accumulatorMemory h low high =>
      have hagree := agree_accumulatorMemory model h
      exact hagree.encodes [low, high] [] (ha _ rfl) (hb _ rfl)
  | twoRegisters h hr hs =>
      have hagree := agree_twoRegisters model h hr hs
      exact hagree.encodes [] [] (ha _ rfl) (hb _ rfl)
  | arithmeticByte m hd value =>
      exact ⟨_, .ofResolve (ha _ rfl) rfl rfl hd rfl, .ofResolve (hb _ rfl) rfl rfl hd rfl⟩
  | arithmeticSigned m hd value => exact encodes_arithmeticSigned (ha _ rfl) (hb _ rfl) hd value
  | imulSigned m hd value => exact encodes_imulSigned (ha _ rfl) (hb _ rfl) hd value
  | pushSigned value => exact encodes_pushSigned (ha _ rfl) (hb _ rfl) value
  | jumpSigned distance => exact encodes_jumpSigned (ha _ rfl) (hb _ rfl) distance
  | shiftByOne h m hmember hd =>
      simp only [List.mem_cons, List.not_mem_nil, or_false, Prod.mk.injEq] at h
      rcases h with ⟨rfl, rfl⟩ | ⟨rfl, rfl⟩
      · exact encodes_shiftByOne (ha _ rfl) (hb _ rfl) rfl rfl hmember hd
      · exact encodes_shiftByOne (ha _ rfl) (hb _ rfl) rfl rfl hmember hd

/-- The two encodings of a pair are decoded to the same instruction, each with its own length. -/
theorem decodeOne_alternative (model : Model) (run a b : List UInt8)
    (hrun : ∀ byte ∈ run, IsPrefix model byte ∧ byte ≠ 0x67) (hlength : run.length ≤ 14)
    (h : Alternative a b) (ha : ∀ byte ∈ a.head?, IsKnown model byte)
    (hb : ∀ byte ∈ b.head?, IsKnown model byte) :
    ∃ i, i.isUndefined = false ∧
      decodeOne model (run ++ a) = .complete (run.length + a.length) i ∧
      decodeOne model (run ++ b) = .complete (run.length + b.length) i := by
  obtain ⟨body, ha, hb⟩ := h.encodes ha hb
  let i : Instruction := { toPrefixes := .ofRun run, toBody := body }
  have hdefined : i.isUndefined = false := decide_eq_false ha.operation
  exact ⟨i, hdefined, ha.decodeOne_eq hrun hlength, hb.decodeOne_eq hrun hlength⟩

/-- A byte with a sign that is added to a word in memory, under a lock and another segment. -/
theorem decodeOne_alternative_addMemory :
    let run := [0x26, 0xF0]
    let short := [0x83, 0x40, 0xFE, 0x80]
    let long := [0x81, 0x40, 0xFE, 0x80, 0xFF]
    (∀ byte ∈ run, IsPrefix .i8086 byte ∧ byte ≠ 0x67) ∧ Alternative short long ∧
      (∀ byte ∈ short.head?, IsKnown .i8086 byte) ∧ (∀ byte ∈ long.head?, IsKnown .i8086 byte) ∧
      ∃ i, i.isUndefined = false ∧ decodeOne .i8086 (run ++ short) = .complete 6 i ∧
        decodeOne .i8086 (run ++ long) = .complete 7 i := by
  intro run short long
  have hrun : ∀ byte ∈ run, IsPrefix .i8086 byte ∧ byte ≠ 0x67 := by decide +kernel
  have halternative : Alternative short long := by
    have hd : [(0xFE : UInt8)].length = (ModRm.ofByte 0x40).displacementSize := by decide
    exact .arithmeticSigned 0x40 hd 0x80
  have hshort : ∀ byte ∈ short.head?, IsKnown .i8086 byte := by decide +kernel
  have hlong : ∀ byte ∈ long.head?, IsKnown .i8086 byte := by decide +kernel
  exact ⟨hrun, halternative, hshort, hlong,
    decodeOne_alternative .i8086 run short long hrun (by decide) halternative hshort hlong⟩

end Iapx86
