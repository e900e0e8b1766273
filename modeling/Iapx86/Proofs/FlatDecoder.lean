import Iapx86.Proofs.Extent

/-!
# The decoder with all its fields side by side

The phase of a `Decoder` carries what is settled by then, so that there is a form where an
addressing byte comes next and nowhere else, and sizes that no field has do not exist. A
`FlatDecoder` has one field for each of these things at all times: the stage, the form that may be
there, the sizes and the number of trailing bytes received, which are numbers of one byte. A call
goes through its stages in their order, from the one in which the last call ended. Where the fields
do not fit together, it comes to a `Fault`.

Two things have no field: the opcode, since nothing is read off it once it is looked up, and what is
legal, since the model says it. And an opcode with an addressing byte behind it leaves body and
sizes as they are, since that byte settles all of them before any is used.

Here is what each stage does to the fields that a `TrailingLayout` stands for, and which stages a
call passes or leaves.
-/

namespace Iapx86

/-- How far an instruction in progress has come. -/
inductive Stage where
  /-- Before the opcode. -/
  | opcode
  /-- After `0F`. -/
  | secondary
  /-- Before the addressing byte. -/
  | modRm
  /-- Before the byte of scale, index and base. -/
  | scaleIndexBase
  /-- Among the trailing bytes. -/
  | trailing
  /-- Behind the last byte. -/
  | ready
  deriving DecidableEq, Repr

/-- What goes wrong where the fields of a decoder do not fit together. -/
inductive Fault where
  /-- The opcode is legal, and no instruction begins with it. -/
  | noInstruction
  /-- There is no form to read the addressing byte by. -/
  | noForm
  /-- A sum of sizes is no number of one byte. -/
  | tooLarge
  /-- More trailing bytes were received than there are. -/
  | negative
  /-- A field is of a size that none has. -/
  | fieldSize (size : UInt8)
  deriving DecidableEq, Repr

namespace Fault

/-- The sum of two sizes. -/
def add (a b : UInt8) : Except Fault UInt8 :=
  if a.toNat + b.toNat < 256 then .ok (a + b) else .error .tooLarge

/-- The difference of two sizes. -/
def sub (a b : UInt8) : Except Fault UInt8 :=
  if b.toNat ≤ a.toNat then .ok (a - b) else .error .negative

end Fault

/-- A decoder, with the instruction in progress in fields of their own. -/
structure FlatDecoder where
  model : Model
  stage : Stage := .opcode
  prefixes : Prefixes := {}
  body : Body := {}
  /-- What the addressing byte is read by. -/
  form? : Option (ModRmForm × Width) := none
  consumed : Nat := 0
  /-- The trailing bytes, each new one entering at the top. -/
  inward : TrailingRegister := {}
  displacementSize : UInt8 := 0
  operandSize : UInt8 := 0
  trailingReceived : UInt8 := 0
  deriving DecidableEq, Repr

namespace FlatDecoder

/-- A decoder with no instruction in progress. -/
def new (model : Model) : FlatDecoder := { model }

/-- Drops the instruction in progress. -/
def reset (f : FlatDecoder) : FlatDecoder := new f.model

/-- The bytes taken in are no instruction. -/
def refuse (f : FlatDecoder) : DecodeResult × FlatDecoder :=
  (.complete f.consumed .undefined, f.reset)

/-- Counts one more byte. -/
def count (f : FlatDecoder) : FlatDecoder := { f with consumed := f.consumed + 1 }

/-- Takes over what is settled about the instruction and its trailing bytes. -/
def settle (f : FlatDecoder) (body : Body) (layout : TrailingLayout) : FlatDecoder :=
  { f with
    body
    displacementSize := layout.displacement.size.toUInt8
    operandSize := layout.operand.size.toUInt8 }

/-- Takes over what an opcode settles by itself. The size of a field that is not there is left as it
is. -/
def settleOpcode (f : FlatDecoder) (body : Body) (layout : TrailingLayout) : FlatDecoder :=
  { f with
    body
    displacementSize :=
      if layout.displacement = .absent then f.displacementSize
      else layout.displacement.size.toUInt8
    operandSize :=
      if layout.operand = .absent then f.operandSize else layout.operand.size.toUInt8 }

/-- Goes on to the trailing bytes, if there are any. -/
def awaitTrailing (f : FlatDecoder) : Except Fault FlatDecoder := do
  let size ← Fault.add f.displacementSize f.operandSize
  return { f with stage := if 0 < size then .trailing else .ready }

/-- Goes on to what follows an opcode of the given shape. -/
def begin (f : FlatDecoder) : OpcodeShape → Except Fault FlatDecoder
  | .undefined | .prefixByte _ | .escape => .error .noInstruction
  | .fixed body layout => (f.settleOpcode body layout).awaitTrailing
  | .modRm form width => .ok { f with form? := some (form, width), stage := .modRm }

/-- Goes on to what follows an addressing byte that the given things are settled by. -/
def address (f : FlatDecoder) (m : ModRm) (body : Body) (layout : TrailingLayout) :
    Except Fault FlatDecoder :=
  let f := { f.settle body layout with form? := none }
  if f.prefixes.addressSize = .bits32 && !m.isRegister && m.rm = 4 then
    .ok { f with stage := .scaleIndexBase }
  else f.awaitTrailing

/-- Reads a displacement of the given size off the top of the register. -/
def peelDisplacement (body : Body) (inward : TrailingRegister) : UInt8 → Except Fault Body
  | 0 => .ok body
  | 1 => .ok { body with displacement := signExtend inward.lastByte }
  | 2 => .ok { body with displacement := inward.lastWord.toInt16 }
  | size => .error (.fieldSize size)

/-- Reads operand and displacement off the top of the register. Four bytes of operand are a far
pointer, two of them being the displacement. -/
def peel (f : FlatDecoder) : Except Fault Body :=
  match f.operandSize with
  | 0 => peelDisplacement f.body f.inward f.displacementSize
  | 1 =>
      let byte := f.inward.lastByte
      let operand := if f.body.signsByteOperand then (signExtend byte).toUInt16 else byte.toUInt16
      peelDisplacement { f.body with operand } f.inward.dropByte f.displacementSize
  | 2 =>
      peelDisplacement { f.body with operand := f.inward.lastWord } f.inward.dropWord
        f.displacementSize
  | 4 => peelDisplacement { f.body with operand := f.inward.lastWord } f.inward.dropWord 2
  | size => .error (.fieldSize size)

/-! ## The stages of a call, from the last to the first -/

/-- Answers with the instruction, or with the number of bytes that it needs at least. -/
def finish (f : FlatDecoder) : DecodeResult × FlatDecoder :=
  if f.stage = .ready then
    (.complete f.consumed { toPrefixes := f.prefixes, toBody := f.body }, f.reset)
  else (.needMore (if f.consumed = 0 then 0 else 1), f)

/-- Takes in as many trailing bytes as are missing or as there are, and counts those that are
missing then. -/
def gather (f : FlatDecoder) (bytes : List UInt8) : Except Fault (Nat × FlatDecoder) := do
  let required ← Fault.add f.displacementSize f.operandSize
  let outstanding ← Fault.sub required f.trailingReceived
  let taken := bytes.take outstanding.toNat
  let trailingReceived ← Fault.add f.trailingReceived taken.length.toUInt8
  return (outstanding.toNat - taken.length,
    { f with
      inward := taken.foldl TrailingRegister.push f.inward
      consumed := f.consumed + taken.length
      trailingReceived })

/-- The trailing bytes. -/
def decodeTrailing (f : FlatDecoder) (bytes : List UInt8) :
    Except Fault (DecodeResult × FlatDecoder) :=
  if f.stage = .trailing then do
    let (missing, f) ← f.gather bytes
    if 0 < missing then return (.needMore missing, f)
    else
      let body ← f.peel
      return { f with body, stage := .ready }.finish
  else .ok f.finish

/-- The byte of scale, index and base, and what follows. -/
def decodeScaleIndexBase (f : FlatDecoder) (bytes : List UInt8) :
    Except Fault (DecodeResult × FlatDecoder) :=
  match f.stage, bytes with
  | .scaleIndexBase, _ :: rest => do
      let f ← f.count.awaitTrailing
      f.decodeTrailing rest
  | _, bytes => f.decodeTrailing bytes

/-- The addressing byte, and what follows. -/
def decodeModRm (f : FlatDecoder) (bytes : List UInt8) :
    Except Fault (DecodeResult × FlatDecoder) :=
  match f.stage, bytes with
  | .modRm, byte :: rest =>
      match f.form? with
      | none => .error .noForm
      | some (form, width) =>
          let m := ModRm.ofByte byte
          match m.resolve? f.model form width with
          | none => .ok f.count.refuse
          | some (body, layout) => do
              let f ← f.count.address m body layout
              f.decodeScaleIndexBase rest
  | _, bytes => f.decodeScaleIndexBase bytes

/-- The byte after `0F`, and what follows. -/
def decodeSecondary (f : FlatDecoder) (bytes : List UInt8) :
    Except Fault (DecodeResult × FlatDecoder) :=
  match f.stage, bytes with
  | .secondary, byte :: rest =>
      if !(Legality.ofModel f.model).secondary byte then .ok f.count.refuse
      else do
        let f ← f.count.begin (OpcodeMap.secondary byte).shape
        f.decodeModRm rest
  | _, bytes => f.decodeModRm bytes

/-- Takes in bytes until an instruction is complete or there are no more: first the bytes up to the
opcode and with it, and then what follows. -/
def decode (f : FlatDecoder) : List UInt8 → Except Fault (DecodeResult × FlatDecoder)
  | [] => f.decodeSecondary []
  | byte :: rest =>
      if f.stage = .opcode then
        if !(Legality.ofModel f.model).primary byte then .ok f.count.refuse
        else match (OpcodeMap.primary byte).shape with
          | .prefixByte p =>
              if f.count.consumed ≥ maxLength then .ok f.count.refuse
              else { f.count with prefixes := p.apply f.prefixes }.decode rest
          | .escape => { f.count with stage := .secondary }.decode rest
          | shape => do
              let f ← f.count.begin shape
              f.decode rest
      else f.decodeSecondary (byte :: rest)

/-- The decoder after one call. -/
def call (f : FlatDecoder) : Call → Except Fault FlatDecoder
  | .decode bytes => (f.decode bytes).map Prod.snd
  | .reset => .ok f.reset

/-- The decoder after a list of calls. -/
def after (f : FlatDecoder) (calls : List Call) : Except Fault FlatDecoder := calls.foldlM call f

end FlatDecoder

/-! ## Sizes of one byte -/

namespace Fault

theorem toNat_toUInt8 {n : Nat} (h : n < 256) : n.toUInt8.toNat = n := UInt8.toNat_ofNat_of_lt h

theorem add_toUInt8 {a b : Nat} (h : a + b < 256) :
    add a.toUInt8 b.toUInt8 = .ok (a + b).toUInt8 := by
  have ha : a < 256 := by omega
  have hb : b < 256 := by omega
  rw [add, toNat_toUInt8 ha, toNat_toUInt8 hb, if_pos h]
  exact congrArg _ (UInt8.ofNat_add a b).symm

theorem sub_toUInt8 {a b : Nat} (hle : b ≤ a) (h : a < 256) :
    sub a.toUInt8 b.toUInt8 = .ok (a - b).toUInt8 := by
  rw [sub, toNat_toUInt8 h, toNat_toUInt8 (Nat.lt_of_le_of_lt hle h), if_pos hle]
  exact congrArg _ (UInt8.ofNat_sub hle).symm

end Fault

theorem TrailingLayout.size_lt (layout : TrailingLayout) : layout.size < 7 := by
  have hdisplacement := layout.displacement.size_le
  have hoperand : layout.operand.size ≤ 4 := by cases layout.operand <;> decide
  rw [size]
  omega

namespace FlatDecoder

variable {f : FlatDecoder} {body : Body} {layout : TrailingLayout}

/-- Before the opcode both sizes are zero, and then nothing is left over. -/
theorem settleOpcode_eq (hdisplacement : f.displacementSize = 0) (hoperand : f.operandSize = 0)
    (body : Body) (layout : TrailingLayout) :
    f.settleOpcode body layout = f.settle body layout := by
  obtain ⟨displacement, operand⟩ := layout
  rw [settleOpcode, settle, hdisplacement, hoperand]
  cases displacement <;> cases operand <;> rfl

theorem add_settle :
    Fault.add (f.settle body layout).displacementSize (f.settle body layout).operandSize =
      .ok layout.size.toUInt8 :=
  Fault.add_toUInt8 (Nat.lt_trans layout.size_lt (by decide))

theorem awaitTrailing_settle :
    (f.settle body layout).awaitTrailing =
      .ok { f.settle body layout with stage := if layout.size = 0 then .ready else .trailing } := by
  obtain ⟨displacement, operand⟩ := layout
  rw [awaitTrailing, add_settle]
  cases displacement <;> cases operand <;> rfl

/-- The fields are read off as their layout says. -/
theorem peel_settle : (f.settle body layout).peel = .ok (body.withTrailing layout f.inward) := by
  obtain ⟨displacement, operand⟩ := layout
  cases displacement <;> cases operand <;> rfl

theorem gather_settle {received : Nat} (hreceived : received < layout.size)
    (hf : f.trailingReceived = received.toUInt8) (bytes : List UInt8) :
    let taken := bytes.take (layout.size - received)
    (f.settle body layout).gather bytes =
      .ok (layout.size - received - taken.length,
        { f with
          inward := taken.foldl TrailingRegister.push f.inward
          consumed := f.consumed + taken.length
          trailingReceived := (received + taken.length).toUInt8 }.settle body layout) := by
  intro taken
  have hsize := layout.size_lt
  have htaken : taken.length ≤ layout.size - received := List.length_take_le _ bytes
  have hsub : Fault.sub layout.size.toUInt8 (f.settle body layout).trailingReceived =
      .ok (layout.size - received).toUInt8 := by
    rw [show (f.settle body layout).trailingReceived = received.toUInt8 from hf]
    exact Fault.sub_toUInt8 hreceived.le (by omega)
  have hadd : Fault.add (f.settle body layout).trailingReceived taken.length.toUInt8 =
      .ok (received + taken.length).toUInt8 := by
    rw [show (f.settle body layout).trailingReceived = received.toUInt8 from hf]
    exact Fault.add_toUInt8 (by omega)
  have houtstanding : (layout.size - received).toUInt8.toNat = layout.size - received :=
    Fault.toNat_toUInt8 (by omega)
  rw [gather, add_settle]
  change (Fault.sub layout.size.toUInt8 _ >>= _) = _
  rw [hsub]
  change (Fault.add _ (bytes.take (layout.size - received).toUInt8.toNat).length.toUInt8 >>= _) = _
  rw [houtstanding, hadd]
  rfl

/-! ## Stages that are passed -/

variable {byte : UInt8} {bytes : List UInt8}

theorem decodeTrailing_pass (h : f.stage ≠ .trailing) : f.decodeTrailing bytes = .ok f.finish :=
  if_neg h

theorem decodeScaleIndexBase_pass (h : bytes = [] ∨ f.stage ≠ .scaleIndexBase) :
    f.decodeScaleIndexBase bytes = f.decodeTrailing bytes := by
  unfold decodeScaleIndexBase
  split
  · simp_all
  · rfl

theorem decodeModRm_pass (h : bytes = [] ∨ f.stage ≠ .modRm) :
    f.decodeModRm bytes = f.decodeScaleIndexBase bytes := by
  unfold decodeModRm
  split
  · simp_all
  · rfl

theorem decodeSecondary_pass (h : bytes = [] ∨ f.stage ≠ .secondary) :
    f.decodeSecondary bytes = f.decodeModRm bytes := by
  unfold decodeSecondary
  split
  · simp_all
  · rfl

theorem decode_pass (h : f.stage ≠ .opcode) : f.decode bytes = f.decodeSecondary bytes := by
  cases bytes with
  | nil => rfl
  | cons byte bytes => rw [decode, if_neg h]

/-! ## Stages that are left -/

theorem decodeScaleIndexBase_cons (h : f.stage = .scaleIndexBase) :
    f.decodeScaleIndexBase (byte :: bytes) =
      f.count.awaitTrailing.bind (·.decodeTrailing bytes) := by
  simp only [decodeScaleIndexBase, h]
  rfl

theorem decodeModRm_cons {form : ModRmForm} {width : Width} (h : f.stage = .modRm)
    (hform : f.form? = some (form, width)) :
    f.decodeModRm (byte :: bytes) =
      match (ModRm.ofByte byte).resolve? f.model form width with
      | none => .ok f.count.refuse
      | some (body, layout) =>
          (f.count.address (ModRm.ofByte byte) body layout).bind
            (·.decodeScaleIndexBase bytes) := by
  simp only [decodeModRm, h, hform]
  rfl

theorem decodeSecondary_cons (h : f.stage = .secondary) :
    f.decodeSecondary (byte :: bytes) =
      if !(Legality.ofModel f.model).secondary byte then .ok f.count.refuse
      else (f.count.begin (OpcodeMap.secondary byte).shape).bind (·.decodeModRm bytes) := by
  simp only [decodeSecondary, h]
  rfl

theorem decode_cons (h : f.stage = .opcode) :
    f.decode (byte :: bytes) =
      if !(Legality.ofModel f.model).primary byte then .ok f.count.refuse
      else match (OpcodeMap.primary byte).shape with
        | .prefixByte p =>
            if f.count.consumed ≥ maxLength then .ok f.count.refuse
            else { f.count with prefixes := p.apply f.prefixes }.decode bytes
        | .escape => { f.count with stage := .secondary }.decode bytes
        | shape => (f.count.begin shape).bind (·.decode bytes) := by
  rw [decode, if_pos h]
  rfl

/-- A legal opcode leads past the stages in which opcodes are read. -/
theorem bind_begin_decode (hdisplacement : f.displacementSize = 0) (hoperand : f.operandSize = 0)
    {opcode : Opcode} {model : Model} (hlegal : opcode.IsLegal model) (bytes : List UInt8) :
    (f.begin opcode.shape).bind (·.decode bytes) =
      (f.begin opcode.shape).bind (·.decodeModRm bytes) := by
  have hpass {f : FlatDecoder} (hopcode : f.stage ≠ .opcode) (hsecondary : f.stage ≠ .secondary) :
      f.decode bytes = f.decodeModRm bytes :=
    (decode_pass hopcode).trans (decodeSecondary_pass (.inr hsecondary))
  rcases hlegal.shape_cases with ⟨body, layout, hshape⟩ | ⟨form, width, hshape⟩
  · rw [hshape, begin, settleOpcode_eq hdisplacement hoperand, awaitTrailing_settle]
    apply hpass <;> dsimp only <;> split <;> exact Stage.noConfusion
  · rw [hshape]
    exact hpass Stage.noConfusion Stage.noConfusion

end FlatDecoder

end Iapx86
