import Iapx86.Proofs.FlatDecoder

/-!
# One decoder in two forms

`Decoder.flat` puts the fields of a decoder side by side. The decoder that this gives answers alike
(`Decoder.IsSound.decode_flat`), and so it comes to no fault: it is enough to show it stage by
stage, from the last one to the first, since what a stage settles is gone on with in a later one.
-/

namespace Iapx86

open Opcode

namespace Phase

def stage : Phase → Stage
  | opcode => .opcode
  | secondary => .secondary
  | modRm _ _ => .modRm
  | scaleIndexBase _ _ => .scaleIndexBase
  | trailing _ _ _ _ => .trailing

/-- The instruction, as far as it is settled. -/
def body : Phase → Body
  | scaleIndexBase body _ | trailing body _ _ _ => body
  | _ => {}

/-- What the addressing byte is read by, where it comes next. -/
def form? : Phase → Option (ModRmForm × Width)
  | modRm form width => some (form, width)
  | _ => none

/-- The layout of the trailing bytes, as far as it is settled. -/
def layout : Phase → TrailingLayout
  | scaleIndexBase _ layout | trailing _ layout _ _ => layout
  | _ => {}

/-- The number of trailing bytes received. -/
def received : Phase → Nat
  | trailing _ _ received _ => received
  | _ => 0

/-- The register with the trailing bytes received. -/
def register : Phase → TrailingRegister
  | trailing _ _ _ register => register
  | _ => {}

/-- The same phase with no trailing bytes received. -/
def emptied : Phase → Phase
  | trailing body layout _ _ => trailing body layout 0 {}
  | phase => phase

theorem stage_ne_ready (phase : Phase) : phase.stage ≠ .ready := by
  cases phase <;> exact Stage.noConfusion

theorem isSome_form?_iff (phase : Phase) : phase.form?.isSome ↔ phase.stage = .modRm := by
  cases phase <;> simp [form?, stage]

theorem received_eq_zero {phase : Phase} (h : phase.stage ≠ .trailing) : phase.received = 0 := by
  cases phase with
  | opcode | secondary | modRm form width | scaleIndexBase body layout => rfl
  | trailing body layout received register => exact absurd rfl h

variable {model : Model} {consumed : Nat} {phase : Phase}

theorem IsSound.received_lt (h : phase.IsSound model consumed) (hstage : phase.stage = .trailing) :
    phase.received < phase.layout.size := by
  cases phase with
  | opcode | secondary | modRm form width | scaleIndexBase body layout => cases hstage
  | trailing body layout received register => exact h.2.2.1

theorem IsSound.received_le (h : phase.IsSound model consumed) :
    phase.received ≤ phase.layout.size := by
  by_cases hstage : phase.stage = .trailing
  · exact (h.received_lt hstage).le
  · rw [received_eq_zero hstage]
    exact Nat.zero_le _

theorem IsSound.isProper (h : phase.IsSound model consumed) : phase.layout.IsProper := by
  cases phase with
  | opcode | secondary | modRm form width => exact nofun
  | scaleIndexBase body layout => exact h.2.2.1
  | trailing body layout received register => exact h.2.1

end Phase

namespace Decoder

/-- The fields of a decoder that has nothing settled but the form, if that. -/
def unsettled (d : Decoder) (stage : Stage) (form? : Option (ModRmForm × Width)) : FlatDecoder :=
  { model := d.model, stage, prefixes := d.prefixes, form?, consumed := d.consumed }

/-- The fields of a decoder, side by side. -/
def flat (d : Decoder) : FlatDecoder where
  model := d.model
  stage := d.phase.stage
  prefixes := d.prefixes
  body := d.phase.body
  form? := d.phase.form?
  consumed := d.consumed
  inward := d.phase.register
  displacementSize := d.phase.layout.displacement.size.toUInt8
  operandSize := d.phase.layout.operand.size.toUInt8
  trailingReceived := d.phase.received.toUInt8

/-- What comes of a step and the bytes behind it. -/
def resume (d : Decoder) (bytes : List UInt8) : StepResult → DecodeResult × Decoder
  | .complete length i => (.complete length i, d.reset)
  | .pending d' => d'.decode bytes

theorem decode_cons_eq_resume (d : Decoder) (byte : UInt8) (bytes : List UInt8) :
    d.decode (byte :: bytes) = d.resume bytes (d.step byte) := by
  rw [decode_cons]
  cases d.step byte <;> rfl

/-- The answer, and the fields of the decoder behind it. -/
def flatResult (x : DecodeResult × Decoder) : DecodeResult × FlatDecoder := (x.1, x.2.flat)

variable {d : Decoder}

/-- Fewer trailing bytes than are missing are gathered. -/
theorem decode_of_short {body : Body} {layout : TrailingLayout} {received : Nat}
    {register : TrailingRegister} (hphase : d.phase = .trailing body layout received register)
    {bytes : List UInt8} (hshort : received + bytes.length < layout.size) :
    d.decode bytes =
      (.needMore (layout.size - (received + bytes.length)),
        { d with
          phase := .trailing body layout (received + bytes.length)
            (bytes.foldl TrailingRegister.push register)
          consumed := d.consumed + bytes.length }) := by
  induction bytes generalizing d received register with
  | nil =>
      rw [decode_nil, shortfall, hphase]
      cases d
      cases hphase
      rfl
  | cons byte bytes ih =>
      rw [List.length_cons] at hshort
      have hmore : received + 1 + bytes.length < layout.size := by omega
      rw [decode_cons, step, hphase]
      dsimp only
      rw [stepTrailing, if_pos (by omega), enter]
      dsimp only
      rw [ih rfl hmore, List.length_cons, List.foldl_cons, Nat.add_assoc received,
        Nat.add_assoc d.consumed, Nat.add_comm 1]

/-- As many as are missing complete the instruction. -/
theorem decode_of_long {body : Body} {layout : TrailingLayout} {received : Nat}
    {register : TrailingRegister} (hphase : d.phase = .trailing body layout received register)
    (hreceived : received < layout.size) {bytes : List UInt8}
    (hlong : layout.size ≤ received + bytes.length) :
    d.decode bytes =
      (.complete (d.consumed + (layout.size - received))
        { toPrefixes := d.prefixes
          toBody := body.withTrailing layout
            ((bytes.take (layout.size - received)).foldl TrailingRegister.push register) },
        d.reset) := by
  obtain ⟨missing, hmissing⟩ : ∃ missing, layout.size - received = missing + 1 :=
    ⟨layout.size - received - 1, by omega⟩
  have hanswer := decode_trailing hphase (show layout.size = received + missing + 1 by omega) bytes
  rw [if_neg (by omega), ← hmissing] at hanswer
  cases hdecode : d.decode bytes with
  | mk result next =>
      rw [hdecode] at hanswer
      obtain rfl : result = _ := hanswer
      rw [eq_new_of_decode_complete hdecode]
      rfl

theorem decodeTrailing_flat {body : Body} {layout : TrailingLayout} {received : Nat}
    {register : TrailingRegister} (hphase : d.phase = .trailing body layout received register)
    (hreceived : received < layout.size) (bytes : List UInt8) :
    d.flat.decodeTrailing bytes = .ok (flatResult (d.decode bytes)) := by
  have hflat : d.flat =
      { d.unsettled .trailing none with
        inward := register
        trailingReceived := received.toUInt8 }.settle body layout := by
    rw [flat, hphase]
    rfl
  have hstage : d.flat.stage = .trailing := congrArg Phase.stage hphase
  rw [FlatDecoder.decodeTrailing, if_pos hstage, hflat, FlatDecoder.gather_settle hreceived rfl]
  by_cases hshort : received + bytes.length < layout.size
  · rw [List.take_of_length_le (by omega), decode_of_short hphase hshort]
    change (if 0 < layout.size - received - bytes.length then _ else _) = _
    rw [if_pos (by omega), Nat.sub_sub]
    rfl
  · rw [decode_of_long hphase hreceived (by omega), List.length_take, Nat.min_eq_left (by omega),
      Nat.sub_self]
    change (FlatDecoder.peel _ >>= _) = _
    rw [FlatDecoder.peel_settle]
    rfl

/-- What is settled is gone on with: nothing may be missing, or the trailing bytes. -/
theorem resume_awaitTrailing (body : Body) (layout : TrailingLayout) (bytes : List UInt8) :
    (({ d with consumed := d.consumed + 1 }.unsettled
        (if layout.size = 0 then .ready else .trailing) none).settle body layout).decodeTrailing
          bytes =
      .ok (flatResult (d.resume bytes (d.awaitTrailing body layout))) := by
  by_cases hsize : layout.size = 0
  · rw [awaitTrailing, if_pos hsize, if_pos hsize, FlatDecoder.decodeTrailing_pass]
    · rfl
    · exact Stage.noConfusion
  · rw [awaitTrailing, if_neg hsize, if_neg hsize]
    exact decodeTrailing_flat (d := { d with
      phase := .trailing body layout 0 {}
      consumed := d.consumed + 1 }) rfl (Nat.pos_of_ne_zero hsize) bytes

/-- Before the trailing bytes, one byte is missing at least. -/
theorem decodeTrailing_nil_flat (h : d.phase.stage ≠ .trailing) :
    d.flat.decodeTrailing [] = .ok (flatResult (d.decode [])) := by
  have hshortfall : d.shortfall = if d.consumed = 0 then 0 else 1 := by
    unfold shortfall
    split
    · next hphase =>
        rw [hphase] at h
        exact absurd rfl h
    · rfl
  have hready : d.flat.stage ≠ .ready := d.phase.stage_ne_ready
  rw [FlatDecoder.decodeTrailing_pass h, FlatDecoder.finish, if_neg hready, decode_nil, hshortfall]
  rfl

theorem decodeScaleIndexBase_flat {body : Body} {layout : TrailingLayout}
    (hphase : d.phase = .scaleIndexBase body layout) (bytes : List UInt8) :
    d.flat.decodeScaleIndexBase bytes = .ok (flatResult (d.decode bytes)) := by
  have hflat : d.flat = (d.unsettled .scaleIndexBase none).settle body layout := by
    rw [flat, hphase]
    rfl
  cases bytes with
  | nil =>
      rw [FlatDecoder.decodeScaleIndexBase_pass (.inl rfl),
        decodeTrailing_nil_flat (by simp [hphase, Phase.stage])]
  | cons byte bytes =>
      rw [decode_cons_eq_resume, step, hphase]
      dsimp only
      rw [← resume_awaitTrailing, hflat, FlatDecoder.decodeScaleIndexBase_cons rfl]
      change Except.bind (FlatDecoder.awaitTrailing (FlatDecoder.settle
        ({ d with consumed := d.consumed + 1 }.unsettled _ _) _ _)) _ = _
      rw [FlatDecoder.awaitTrailing_settle]
      rfl

/-- What the addressing byte settles is gone on with. -/
theorem resume_address {form? : Option (ModRmForm × Width)} (m : ModRm) (body : Body)
    (layout : TrailingLayout) (bytes : List UInt8) :
    (((d.unsettled .modRm form?).count.address m body layout).bind
        (·.decodeScaleIndexBase bytes)) =
      .ok (flatResult (d.resume bytes
        (if d.takesScaleIndexBase m then d.enter (.scaleIndexBase body layout)
        else d.awaitTrailing body layout))) := by
  by_cases hwide : d.takesScaleIndexBase m = true
  · have haddress : (d.unsettled .modRm form?).count.address m body layout =
        .ok { d with phase := .scaleIndexBase body layout, consumed := d.consumed + 1 }.flat :=
      if_pos hwide
    rw [haddress, if_pos hwide]
    exact decodeScaleIndexBase_flat (d := { d with
      phase := .scaleIndexBase body layout
      consumed := d.consumed + 1 }) rfl bytes
  · have haddress : (d.unsettled .modRm form?).count.address m body layout =
        (({ d with consumed := d.consumed + 1 }.unsettled .modRm none).settle body
          layout).awaitTrailing :=
      if_neg hwide
    rw [haddress, FlatDecoder.awaitTrailing_settle, if_neg hwide, ← resume_awaitTrailing]
    refine FlatDecoder.decodeScaleIndexBase_pass (.inr ?_)
    dsimp only
    split <;> exact Stage.noConfusion

theorem decodeModRm_flat {form : ModRmForm} {width : Width} (hphase : d.phase = .modRm form width)
    (bytes : List UInt8) :
    d.flat.decodeModRm bytes = .ok (flatResult (d.decode bytes)) := by
  have hflat : d.flat = d.unsettled .modRm (some (form, width)) := by
    rw [flat, hphase]
    rfl
  cases bytes with
  | nil =>
      rw [FlatDecoder.decodeModRm_pass (.inl rfl), FlatDecoder.decodeScaleIndexBase_pass (.inl rfl),
        decodeTrailing_nil_flat (by simp [hphase, Phase.stage])]
  | cons byte bytes =>
      rw [decode_cons_eq_resume, step, hphase, hflat, FlatDecoder.decodeModRm_cons rfl rfl]
      dsimp only [stepModRm]
      rw [show (d.unsettled .modRm (some (form, width))).model = d.model from rfl]
      cases (ModRm.ofByte byte).resolve? d.model form width with
      | none => rfl
      | some resolved => exact resume_address _ _ _ bytes

/-- What an opcode settles is gone on with. -/
theorem resume_begin {stage : Stage} {opcode : Opcode} (hlegal : opcode.IsLegal d.model)
    (bytes : List UInt8) :
    ((d.unsettled stage none).count.begin opcode.shape).bind (·.decodeModRm bytes) =
      .ok (flatResult (d.resume bytes
        (match opcode.shape with
        | .fixed body layout => d.awaitTrailing body layout
        | .modRm form width => d.enter (.modRm form width)
        | _ => d.refuse))) := by
  rcases hlegal.shape_cases with ⟨body, layout, hshape⟩ | ⟨form, width, hshape⟩
  · rw [hshape]
    dsimp only
    have hcount : (d.unsettled stage none).count.settleOpcode body layout =
        ({ d with consumed := d.consumed + 1 }.unsettled stage none).settle body layout :=
      FlatDecoder.settleOpcode_eq rfl rfl body layout
    rw [← resume_awaitTrailing, FlatDecoder.begin, hcount, FlatDecoder.awaitTrailing_settle]
    refine (FlatDecoder.decodeModRm_pass (.inr ?_)).trans
      (FlatDecoder.decodeScaleIndexBase_pass (.inr ?_))
    · dsimp only
      split <;> exact Stage.noConfusion
    · dsimp only
      split <;> exact Stage.noConfusion
  · rw [hshape]
    exact decodeModRm_flat (d := { d with
      phase := .modRm form width
      consumed := d.consumed + 1 }) rfl bytes

theorem decodeSecondary_flat (hphase : d.phase = .secondary) (bytes : List UInt8) :
    d.flat.decodeSecondary bytes = .ok (flatResult (d.decode bytes)) := by
  have hflat : d.flat = d.unsettled .secondary none := by
    rw [flat, hphase]
    rfl
  cases bytes with
  | nil =>
      rw [FlatDecoder.decodeSecondary_pass (.inl rfl), FlatDecoder.decodeModRm_pass (.inl rfl),
        FlatDecoder.decodeScaleIndexBase_pass (.inl rfl),
        decodeTrailing_nil_flat (by simp [hphase, Phase.stage])]
  | cons byte bytes =>
      rw [decode_cons_eq_resume, step, hphase, hflat, FlatDecoder.decodeSecondary_cons rfl]
      dsimp only
      rw [stepSecondary, show (d.unsettled .secondary none).model = d.model from rfl]
      cases hsecondary : (Legality.ofModel d.model).secondary byte with
      | false => rfl
      | true =>
          have hlegal : (Opcode.secondary byte).IsLegal d.model :=
            (secondary_ofModel_iff d.model byte).mp hsecondary
          refine (resume_begin hlegal bytes).trans ?_
          cases hshape : (OpcodeMap.secondary byte).shape <;> rw [Opcode.shape, hshape] <;> rfl

theorem decode_flat_of_opcode (hphase : d.phase = .opcode) (bytes : List UInt8) :
    d.flat.decode bytes = .ok (flatResult (d.decode bytes)) := by
  have hflat : d.flat = d.unsettled .opcode none := by
    rw [flat, hphase]
    rfl
  induction bytes generalizing d with
  | nil =>
      rw [FlatDecoder.decode, FlatDecoder.decodeSecondary_pass (.inl rfl),
        FlatDecoder.decodeModRm_pass (.inl rfl), FlatDecoder.decodeScaleIndexBase_pass (.inl rfl),
        decodeTrailing_nil_flat (by simp [hphase, Phase.stage])]
  | cons byte bytes ih =>
      rw [decode_cons_eq_resume, step, hphase, hflat, FlatDecoder.decode_cons rfl]
      dsimp only
      rw [show (d.unsettled .opcode none).model = d.model from rfl]
      by_cases hknown : IsKnown d.model byte
      · have hlegal := (primary_ofModel_iff d.model byte).mpr hknown
        rw [stepOpcode_of_isKnown hknown, hlegal]
        cases hshape : (OpcodeMap.primary byte).shape with
        | undefined => exact absurd ((shape_eq_undefined_iff byte).mp hshape) hknown.1
        | prefixByte p =>
            dsimp only
            by_cases hfull : d.consumed + 1 ≥ maxLength
            · rw [if_pos hfull]
              exact if_pos hfull
            · rw [if_neg hfull]
              refine (if_neg hfull).trans ?_
              exact ih (d := { d with
                phase := .opcode
                prefixes := p.apply d.prefixes
                consumed := d.consumed + 1 }) rfl rfl
        | escape =>
            refine (FlatDecoder.decode_pass Stage.noConfusion).trans ?_
            exact decodeSecondary_flat (d := { d with
              phase := .secondary
              consumed := d.consumed + 1 }) rfl bytes
        | fixed body layout | modRm form width =>
            have hopcode : (Opcode.primary byte).IsLegal d.model :=
              isLegal_of_shape hknown (by simp [modifier?, hshape]) (by simp [hshape])
            have hbegin := FlatDecoder.bind_begin_decode (f := (d.unsettled .opcode none).count)
              rfl rfl hopcode bytes
            have hresume := hbegin.trans (resume_begin hopcode bytes)
            rw [Opcode.shape, hshape] at hresume
            exact hresume
      · have hlegal := mt (primary_ofModel_iff d.model byte).mp hknown
        rw [stepOpcode_of_not_isKnown hknown, eq_false_of_ne_true hlegal]
        rfl

/-- A decoder with its fields side by side answers alike, and comes to the fields of the decoder
that answered. -/
theorem IsSound.decode_flat (h : d.IsSound) (bytes : List UInt8) :
    d.flat.decode bytes = .ok (flatResult (d.decode bytes)) := by
  cases hphase : d.phase with
  | opcode => exact decode_flat_of_opcode hphase bytes
  | secondary =>
      have hstage : d.flat.stage = .secondary := congrArg Phase.stage hphase
      rw [FlatDecoder.decode_pass (by simp [hstage]), decodeSecondary_flat hphase]
  | modRm form width =>
      have hstage : d.flat.stage = .modRm := congrArg Phase.stage hphase
      rw [FlatDecoder.decode_pass (by simp [hstage]),
        FlatDecoder.decodeSecondary_pass (by simp [hstage]), decodeModRm_flat hphase]
  | scaleIndexBase body layout =>
      have hstage : d.flat.stage = .scaleIndexBase := congrArg Phase.stage hphase
      rw [FlatDecoder.decode_pass (by simp [hstage]),
        FlatDecoder.decodeSecondary_pass (by simp [hstage]),
        FlatDecoder.decodeModRm_pass (by simp [hstage]), decodeScaleIndexBase_flat hphase]
  | trailing body layout received register =>
      have hstage : d.flat.stage = .trailing := congrArg Phase.stage hphase
      have hreceived := h.phase.received_lt hstage
      rw [hphase] at hreceived
      rw [FlatDecoder.decode_pass (by simp [hstage]),
        FlatDecoder.decodeSecondary_pass (by simp [hstage]),
        FlatDecoder.decodeModRm_pass (by simp [hstage]),
        FlatDecoder.decodeScaleIndexBase_pass (by simp [hstage]),
        decodeTrailing_flat hphase hreceived]

end Decoder

end Iapx86
