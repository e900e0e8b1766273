import Iapx86.Proofs.Extent

/-!
# Nothing is taken in that cannot be completed

Zeros complete whatever is in progress: a zero in the place of an opcode is an addition, every group
has a member for the addressing byte zero, and trailing bytes may be anything. Five of them are
enough in every phase (`Decoder.IsSound.decode_zeros`). So an encoding that is refused is refused at
the first byte after which no instruction could come of it.
-/

namespace Iapx86

open Opcode

/-- The answer is an instruction and not the undefined one. -/
def DecodeResult.IsDefined (r : DecodeResult) : Prop :=
  ∃ length i, r = .complete length i ∧ i.isUndefined = false

theorem settledAnswer_isDefined (p : Prefixes) (length : Nat) {body : Body}
    {layout : TrailingLayout} (hbody : body.operation ≠ .undefined) {bytes : List UInt8}
    (h : layout.size ≤ bytes.length) : (settledAnswer p length body layout bytes).IsDefined := by
  rw [settledAnswer, if_neg (Nat.not_lt.mpr h)]
  exact ⟨_, _, rfl, Instruction.isUndefined_withTrailing p hbody layout _⟩

/-- Every form has an instruction for the addressing byte zero. -/
theorem ModRmForm.not_refuses_zero (model : Model) (form : ModRmForm) :
    ¬ form.Refuses model (.ofByte 0) := by
  cases form with
  | toSegment | fromSegment => exact Nat.not_lt_zero _
  | _ => simp [Refuses, ModRm.ofByte]

theorem OperandField.size_le {field : OperandField} (h : field ≠ .farPointer) : field.size ≤ 2 := by
  cases field with
  | farPointer => exact absurd rfl h
  | absent | byte | word => decide

namespace Decoder

variable {d : Decoder}

theorem decode_modRm_zero {form : ModRmForm} {width : Width} (hphase : d.phase = .modRm form width)
    (hform : form.isDefined) (hfar : form.operandField width 0 ≠ .farPointer) {bytes : List UInt8}
    (hbytes : 2 ≤ bytes.length) : (d.decode (0 :: bytes)).1.IsDefined := by
  have hrefuses := form.not_refuses_zero d.model
  rw [← ModRm.resolve?_eq_none_iff _ _ width _ (ModRm.reg_ofByte_lt 0)] at hrefuses
  obtain ⟨⟨body, layout⟩, hresolve⟩ := Option.ne_none_iff_exists'.mp hrefuses
  have hbody := ModRm.operation_of_resolve? hform hresolve
  obtain ⟨hdisplacement, hoperand, -, -⟩ := ModRm.fields_of_resolve? hresolve
  have hsize : layout.size ≤ bytes.length := by
    have htwo := OperandField.size_le hfar
    rw [TrailingLayout.size, hdisplacement, hoperand]
    exact Nat.le_trans (Nat.zero_add _ ▸ htwo) hbytes
  have hnarrow : d.takesScaleIndexBase (.ofByte 0) = false := Bool.and_false _
  rw [decode_cons_fst, step, hphase]
  dsimp only
  rw [stepModRm, hresolve]
  dsimp only
  rw [hnarrow, if_neg Bool.false_ne_true, answer_awaitTrailing]
  exact settledAnswer_isDefined _ _ hbody hsize

theorem decode_secondary_zero (hphase : d.phase = .secondary) (hescape : IsKnown d.model 0x0F)
    {bytes : List UInt8} (hbytes : 2 ≤ bytes.length) :
    (d.decode (0 :: 0 :: bytes)).1.IsDefined := by
  have hlegal := (secondary_ofModel_iff d.model 0).mpr ⟨hescape, by decide⟩
  have hshape : (OpcodeMap.secondary 0).shape = .modRm .localDescriptor .word := rfl
  rw [decode_cons_fst, step, hphase]
  dsimp only
  rw [stepSecondary, hlegal, hshape]
  exact decode_modRm_zero rfl rfl OperandField.noConfusion hbytes

theorem decode_opcode_zero (hphase : d.phase = .opcode) {bytes : List UInt8}
    (hbytes : 2 ≤ bytes.length) : (d.decode (0 :: 0 :: bytes)).1.IsDefined := by
  have hknown : IsKnown d.model 0 := ⟨by decide, d.model.i8086_le⟩
  have hshape : (OpcodeMap.primary 0).shape = .modRm (.toMemory .add) .byte := rfl
  rw [decode_cons_fst, step, hphase]
  dsimp only
  rw [stepOpcode_of_isKnown hknown, hshape]
  exact decode_modRm_zero rfl rfl OperandField.noConfusion hbytes

/-- Five zeros complete what is in progress. -/
theorem IsSound.decode_zeros (h : d.IsSound) : (d.decode [0, 0, 0, 0, 0]).1.IsDefined := by
  have hsound := h.phase
  cases hphase : d.phase with
  | opcode => exact decode_opcode_zero hphase (by decide)
  | secondary =>
      rw [hphase] at hsound
      exact decode_secondary_zero hphase hsound.2 (by decide)
  | modRm form width =>
      rw [hphase] at hsound
      obtain ⟨hform, hreg⟩ := hsound
      exact decode_modRm_zero hphase hform (hreg 0 (by decide)).1 (by decide)
  | scaleIndexBase body layout =>
      rw [hphase] at hsound
      obtain ⟨-, hbody, hproper, -⟩ := hsound
      rw [decode_cons_fst, step, hphase]
      dsimp only
      rw [answer_awaitTrailing]
      exact settledAnswer_isDefined _ _ hbody hproper.size_le
  | trailing body layout received register =>
      rw [hphase] at hsound
      obtain ⟨hbody, hproper, hreceived, -⟩ := hsound
      have hfour := hproper.size_le
      have hsize : layout.size = received + (layout.size - received - 1) + 1 := by omega
      have hlong : ¬ ([0, 0, 0, 0, 0] : List UInt8).length < layout.size - received - 1 + 1 := by
        simp only [List.length_cons, List.length_nil]
        omega
      rw [decode_trailing hphase hsize, if_neg hlong]
      exact ⟨_, _, rfl, Instruction.isUndefined_withTrailing _ hbody layout _⟩

end Decoder

variable {model : Model} {bytes : List UInt8} {length : Nat} {i : Instruction}

theorem decodeOne_zeros_of_needMore {atLeast : Nat}
    (h : decodeOne model bytes = .needMore atLeast) :
    ∃ length i, decodeOne model (bytes ++ [0, 0, 0, 0, 0]) = .complete length i ∧
      i.isUndefined = false ∧ bytes.length < length ∧ length ≤ bytes.length + 5 := by
  have hprogress : Decoder.InProgress model bytes ((Decoder.new model).decode bytes).2 :=
    ⟨atLeast, Prod.ext h rfl⟩
  obtain ⟨length, i, hcomplete, hdefined⟩ := hprogress.isSound.decode_zeros
  have hlength := Decoder.length_of_decode_complete hcomplete
  rw [hprogress.consumed_eq] at hlength
  rw [hprogress.decode_eq] at hcomplete
  exact ⟨length, i, hcomplete, hdefined, hlength⟩

/-- The bytes of an instruction are all it needs. -/
theorem decodeOne_take_append (h : decodeOne model bytes = .complete length i) (tail : List UInt8) :
    decodeOne model (bytes.take length ++ tail) = .complete length i := by
  cases hdecode : (Decoder.new model).decode (bytes.take length) with
  | mk result d =>
      cases result with
      | complete length' i' =>
          have hwhole := Decoder.decode_append_of_complete hdecode (bytes.drop length)
          have htail := Decoder.decode_append_of_complete hdecode tail
          rw [List.take_append_drop] at hwhole
          rw [decodeOne, htail, ← h, decodeOne, hwhole]
      | needMore atLeast =>
          -- A byte would be missing, but the instruction is no longer than this.
          have hwhole := Decoder.decode_append_of_needMore hdecode (bytes.drop length)
          have hconsumed := Decoder.consumed_of_decode_needMore hdecode
          rw [List.take_append_drop] at hwhole
          rw [decodeOne, hwhole] at h
          have hlength := Decoder.length_of_decode_complete h
          simp only [Decoder.new, List.length_take, List.length_drop] at hconsumed hlength
          omega

/-- Fewer bytes than that are not enough. -/
theorem decodeOne_take_of_lt (h : decodeOne model bytes = .complete length i) {k : Nat}
    (hk : k < length) : ∃ atLeast, decodeOne model (bytes.take k) = .needMore atLeast := by
  cases htake : decodeOne model (bytes.take k) with
  | needMore atLeast => exact ⟨atLeast, rfl⟩
  | complete length' i' =>
      have hlength := (length_of_decodeOne_complete htake).2
      have hwhole := Decoder.decode_append_of_complete (Prod.ext htake rfl) (bytes.drop k)
      rw [List.take_append_drop] at hwhole
      rw [decodeOne, hwhole] at h
      cases h
      rw [List.length_take] at hlength
      omega

/-- What is incomplete can be completed to an instruction, with at most five more bytes, and zeros
will do. So a refused encoding is refused as early as it can be: from fewer bytes of it an
instruction could still come, and from these bytes none can, whatever follows. -/
theorem decodeOne_viable (model : Model) (bytes : List UInt8) :
    (∀ atLeast, decodeOne model bytes = .needMore atLeast →
      ∃ length i, decodeOne model (bytes ++ [0, 0, 0, 0, 0]) = .complete length i ∧
        i.isUndefined = false ∧ bytes.length < length ∧ length ≤ bytes.length + 5) ∧
    ∀ length i, decodeOne model bytes = .complete length i → i.isUndefined = true →
      (∀ k < length, ∃ tail length' i',
        decodeOne model (bytes.take k ++ tail) = .complete length' i' ∧ i'.isUndefined = false ∧
          k < length' ∧ length' ≤ k + 5) ∧
      ∀ tail, decodeOne model (bytes.take length ++ tail) = .complete length i := by
  refine ⟨fun atLeast h => decodeOne_zeros_of_needMore h, fun length i h _ => ⟨fun k hk => ?_, ?_⟩⟩
  · obtain ⟨atLeast, htake⟩ := decodeOne_take_of_lt h hk
    have hbytes := (length_of_decodeOne_complete h).2
    have hlength : (bytes.take k).length = k := by
      rw [List.length_take]
      omega
    obtain ⟨length', i', hcomplete, hdefined, hlt, hle⟩ := decodeOne_zeros_of_needMore htake
    rw [hlength] at hlt hle
    exact ⟨_, length', i', hcomplete, hdefined, hlt, hle⟩
  · exact decodeOne_take_append h

/-- Behind fourteen other bytes, an addition to memory still lacks all that it can lack. A group
that has no such member is refused at its addressing byte. -/
theorem decodeOne_viable_group :
    (∃ length i, decodeOne .i80386 (List.replicate 14 0x67 ++ [0x81, 0x84] ++ [0, 0, 0, 0, 0]) =
      .complete length i ∧ i.isUndefined = false ∧ 16 < length ∧ length ≤ 21) ∧
    decodeOne .i80286 [0xF3, 0x0F, 0x00, 0x3C, 0x12] = .complete 4 .undefined ∧
    (∃ tail length i, decodeOne .i80286 ([0xF3, 0x0F, 0x00] ++ tail) = .complete length i ∧
      i.isUndefined = false) ∧
    ∀ tail, decodeOne .i80286 ([0xF3, 0x0F, 0x00, 0x3C] ++ tail) = .complete 4 .undefined := by
  have hmissing : decodeOne .i80386 (List.replicate 14 0x67 ++ [0x81, 0x84]) = .needMore 1 := by
    decide +kernel
  have hrefused : decodeOne .i80286 [0xF3, 0x0F, 0x00, 0x3C, 0x12] = .complete 4 .undefined := by
    decide +kernel
  have hcompletes :=
    (decodeOne_viable .i80386 (List.replicate 14 0x67 ++ [0x81, 0x84])).1 1 hmissing
  obtain ⟨hearlier, hnever⟩ := (decodeOne_viable .i80286 _).2 4 .undefined hrefused rfl
  obtain ⟨tail, length, i, hcomplete, hdefined, -, -⟩ := hearlier 3 (by decide)
  exact ⟨hcompletes, hrefused, ⟨tail, length, i, hcomplete, hdefined⟩, hnever⟩

end Iapx86
