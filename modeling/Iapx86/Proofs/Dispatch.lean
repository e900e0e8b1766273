import Iapx86.Proofs.Header

/-!
# What the bytes of an instruction are taken for

`Decoder.uses` goes along with a decoder and says of each byte that it takes in what the byte is
taken for: one before the opcode, the opcode, the addressing byte, or one of the rest. Where an
instruction comes of it, the bytes are, in this order, a run of bytes before the opcode, a legal
opcode, the addressing byte if the opcode takes one, and the rest (`exists_uses_eq`).
-/

namespace Iapx86

open Opcode

/-- What a byte is taken for. -/
inductive ByteUse where
  /-- A byte before the opcode, which is applied to the instruction. -/
  | modifier
  /-- The opcode, whose first byte may be `0F`. -/
  | opcode
  | addressing
  /-- The byte of scale, index and base, or a trailing byte. -/
  | rest
  deriving DecidableEq, Repr

/-- The bytes that are taken for one thing, in their order. -/
def ByteUse.bytes (use : ByteUse) (us : List (ByteUse × UInt8)) : List UInt8 :=
  (us.filter fun u => u.1 = use).map Prod.snd

namespace ByteUse

theorem bytes_append (use : ByteUse) (us vs : List (ByteUse × UInt8)) :
    use.bytes (us ++ vs) = use.bytes us ++ use.bytes vs := by
  rw [bytes, List.filter_append, List.map_append]
  rfl

theorem bytes_map_self (use : ByteUse) (bs : List UInt8) : use.bytes (bs.map (use, ·)) = bs := by
  simp [bytes, List.filter_map, Function.comp_def]

theorem bytes_eq_nil {use use' : ByteUse} (hne : use' ≠ use) {us : List (ByteUse × UInt8)}
    (h : ∀ u ∈ us, u.1 = use') : use.bytes us = [] := by
  rw [bytes, List.map_eq_nil_iff, List.filter_eq_nil_iff]
  intro u hu
  simpa [h u hu] using hne

theorem bytes_map_of_ne {use use' : ByteUse} (hne : use' ≠ use) (bs : List UInt8) :
    use.bytes (bs.map (use', ·)) = [] := by
  refine bytes_eq_nil hne fun u hu => ?_
  obtain ⟨b, -, rfl⟩ := List.mem_map.mp hu
  rfl

theorem bytes_of_parts (run opcode addressing : List UInt8) {others : List (ByteUse × UInt8)}
    (hothers : ∀ u ∈ others, u.1 = .rest) :
    let us := run.map (ByteUse.modifier, ·) ++ (opcode.map (ByteUse.opcode, ·) ++
      (addressing.map (ByteUse.addressing, ·) ++ others))
    ByteUse.modifier.bytes us = run ∧ ByteUse.opcode.bytes us = opcode ∧
      ByteUse.addressing.bytes us = addressing := by
  simp [bytes_append, bytes_map_self, bytes_map_of_ne, bytes_eq_nil _ hothers]

end ByteUse

/-- Whether the opcode is still to come. -/
def StepResult.awaitsOpcode : StepResult → Bool
  | complete _ _ => false
  | pending d => d.phase = .opcode

namespace Decoder

/-- What a decoder takes the next byte for. -/
def useOf (d : Decoder) (byte : UInt8) : ByteUse :=
  match d.phase with
  | .opcode => if (d.step byte).awaitsOpcode then .modifier else .opcode
  | .secondary => .opcode
  | .modRm _ _ => .addressing
  | .scaleIndexBase _ _ | .trailing _ _ _ _ => .rest

/-- The bytes that a decoder takes in before it answers, each with what it is taken for. -/
def uses : Decoder → List UInt8 → List (ByteUse × UInt8)
  | _, [] => []
  | d, byte :: bytes =>
      (d.useOf byte, byte) ::
        match d.step byte with
        | .complete _ _ => []
        | .pending d' => d'.uses bytes

end Decoder

/-- What the bytes behind a step are taken for. -/
def StepResult.uses : StepResult → List UInt8 → List (ByteUse × UInt8)
  | complete _ _, _ => []
  | pending d, bytes => d.uses bytes

namespace Decoder

variable {d : Decoder} {bytes : List UInt8} {length : Nat} {i : Instruction}

theorem uses_cons (d : Decoder) (byte : UInt8) (bytes : List UInt8) :
    d.uses (byte :: bytes) = (d.useOf byte, byte) :: (d.step byte).uses bytes := by
  rw [uses]
  cases d.step byte <;> rfl

/-! ## Behind the opcode -/

/-- Once all is settled but for the trailing bytes, these are all that is left. -/
theorem uses_of_body {body : Body} (hbody : d.phase.body? = some body) :
    ∀ u ∈ d.uses bytes, u.1 = .rest := by
  induction bytes generalizing d with
  | nil => exact List.forall_mem_nil _
  | cons byte bytes ih =>
      have huse : d.useOf byte = .rest := by
        unfold useOf
        cases hphase : d.phase with
        | scaleIndexBase body layout => rfl
        | trailing body layout received register => rfl
        | opcode | secondary | modRm form width =>
            rw [hphase] at hbody
            cases hbody
      rw [uses_cons, List.forall_mem_cons]
      refine ⟨huse, ?_⟩
      rcases operation_of_step hbody byte with ⟨body', -, hstep⟩ | ⟨phase, hphase, hstep⟩
      · rw [hstep]
        exact List.forall_mem_nil _
      · rw [hstep]
        exact ih (d := { d with phase, consumed := d.consumed + 1 }) hphase

theorem uses_awaitTrailing (d : Decoder) (body : Body) (layout : TrailingLayout) :
    ∀ u ∈ (d.awaitTrailing body layout).uses bytes, u.1 = .rest := by
  unfold awaitTrailing
  split
  · exact List.forall_mem_nil _
  · exact uses_of_body rfl

/-- Where an addressing byte is due, the next byte is taken for it, and then come the rest. -/
theorem exists_uses_modRm {form : ModRmForm} {width : Width} (hphase : d.phase = .modRm form width)
    (h : (d.decode bytes).1 = .complete length i) :
    ∃ byte behind others, bytes = byte :: behind ∧ d.uses bytes = (.addressing, byte) :: others ∧
      ∀ u ∈ others, u.1 = .rest := by
  cases bytes with
  | nil => cases h
  | cons byte behind =>
      have huse : d.useOf byte = .addressing := by
        unfold useOf
        rw [hphase]
      refine ⟨byte, behind, (d.step byte).uses behind, rfl, by rw [uses_cons, huse], ?_⟩
      rw [step, hphase]
      dsimp only
      unfold stepModRm
      dsimp only
      split
      · exact List.forall_mem_nil _
      · split
        · exact uses_of_body rfl
        · exact d.uses_awaitTrailing _ _

/-! ## The opcode -/

theorem uses_run (hphase : d.phase = .opcode) {run : List UInt8}
    (hrun : ∀ byte ∈ run, IsPrefix d.model byte) (hroom : d.consumed + run.length < maxLength)
    (rest : List UInt8) :
    d.uses (run ++ rest) = run.map (ByteUse.modifier, ·) ++ (d.passing run).uses rest := by
  induction run generalizing d with
  | nil => rfl
  | cons byte run ih =>
      rw [List.length_cons] at hroom
      have hstep : d.step byte = .pending (d.passing [byte]) := by
        rw [step_of_isPrefix hphase (hrun byte List.mem_cons_self), if_neg (by omega)]
      have huse : d.useOf byte = .modifier := by
        have hawaits : (d.step byte).awaitsOpcode = true := by
          rw [hstep]
          exact decide_eq_true hphase
        unfold useOf
        rw [hphase]
        exact if_pos hawaits
      have hroom' : (d.passing [byte]).consumed + run.length < maxLength := by
        simp only [passing, List.length_singleton]
        omega
      rw [List.cons_append, uses_cons, huse, hstep, passing_cons d byte run]
      exact congrArg ((ByteUse.modifier, byte) :: ·)
        (ih (d := d.passing [byte]) hphase (fun b hb => hrun b (List.mem_cons_of_mem _ hb)) hroom')

theorem uses_opcode {opcode : Opcode} (hphase : d.phase = .opcode)
    (hlegal : opcode.IsLegal d.model) (bytes : List UInt8) :
    d.uses (opcode.bytes ++ bytes) =
      opcode.bytes.map (ByteUse.opcode, ·) ++
        ((d.atLastByte opcode).step opcode.lastByte).uses bytes := by
  cases opcode with
  | primary byte =>
      have hawaits : (d.step byte).awaitsOpcode = false := by
        have hstep := step_atLastByte hphase hlegal
        rw [atLastByte, Opcode.lastByte] at hstep
        rw [hstep]
        rcases hlegal.shape_cases with ⟨body, layout, hshape⟩ | ⟨form, width, hshape⟩
        · rw [hshape]
          dsimp only
          unfold awaitTrailing
          split <;> rfl
        · rw [hshape]
          rfl
      have huse : d.useOf byte = .opcode := by
        unfold useOf
        rw [hphase, hawaits]
        rfl
      rw [Opcode.bytes, List.singleton_append, uses_cons, huse]
      rfl
  | secondary byte =>
      have hstep := step_escape hphase hlegal.1
      have huse : d.useOf 0x0F = .opcode := by
        unfold useOf
        rw [hphase, hstep]
        rfl
      rw [Opcode.bytes, List.cons_append, List.singleton_append, uses_cons, huse, hstep]
      exact congrArg ((ByteUse.opcode, 0x0F) :: ·) (uses_cons _ byte bytes)

/-- Where an instruction comes of it and the opcode is next, it is a legal one. -/
theorem exists_isLegal (hphase : d.phase = .opcode)
    (hhead : ∀ opcode ∈ bytes.head?, ¬ IsPrefix d.model opcode)
    (h : (d.decode bytes).1 = .complete length i) (hdefined : i.isUndefined = false) :
    ∃ opcode : Opcode, opcode.IsLegal d.model ∧ opcode.bytes <+: bytes := by
  have haccepted : ∀ n, ¬ RejectedFrom d.model d.consumed bytes n := by
    intro n hrejected
    obtain ⟨hcomplete, hundefined⟩ := (refuses_opcode_iff hphase hhead).mpr ⟨rfl, hrejected⟩
    obtain ⟨-, rfl⟩ := DecodeResult.complete.inj (h.symm.trans hcomplete)
    exact Bool.false_ne_true (hdefined.symm.trans hundefined)
  cases bytes with
  | nil => cases h
  | cons byte rest =>
      have hknown : IsKnown d.model byte := by
        by_contra hunknown
        exact haccepted _ ⟨byte, rest, rfl, .inl ⟨hunknown, rfl⟩⟩
      by_cases hescape : byte = 0x0F
      · subst hescape
        cases rest with
        | nil =>
            rw [decode_cons_fst, step_escape hphase hknown] at h
            cases h
        | cons second rest =>
            refine ⟨.secondary second, ⟨hknown, ?_⟩, rest, rfl⟩
            by_contra hsecond
            exact haccepted _
              ⟨0x0F, _, rfl, .inr (.inl ⟨rfl, hknown, second, rest, rfl, .inl ⟨hsecond, rfl⟩⟩)⟩
      · have hopcode : byte ∉ prefixBytes := fun hmem => hhead byte rfl ⟨hmem, hknown.2⟩
        exact ⟨.primary byte, ⟨hknown, hopcode, hescape⟩, rest, rfl⟩

end Decoder

/-- Where an instruction comes of an encoding, not so many bytes stand before the opcode that they
are all there is room for. -/
theorem length_prefixRun_le {model : Model} {bytes : List UInt8} {length : Nat} {i : Instruction}
    (h : decodeOne model bytes = .complete length i) (hdefined : i.isUndefined = false) :
    (prefixRun model bytes).length ≤ 14 := by
  by_contra hlong
  have hrun : ∀ byte ∈ prefixRun model bytes, IsPrefix (Decoder.new model).model byte :=
    fun byte hbyte => isPrefix_of_mem_prefixRun hbyte
  have hfull : maxLength ≤ (Decoder.new model).consumed + (prefixRun model bytes).length := by
    rw [Decoder.new, maxLength, Nat.zero_add]
    omega
  rw [decodeOne, ← prefixRun_append model bytes,
    Decoder.answer_run_of_length rfl (Nat.zero_lt_succ 14) hrun hfull] at h
  obtain ⟨-, rfl⟩ := DecodeResult.complete.inj h
  cases hdefined

/-- What the bytes of an instruction are taken for: a run of bytes before the opcode, the opcode,
the addressing byte if the opcode takes one, and the rest. -/
theorem exists_uses_eq {model : Model} {bytes : List UInt8} {length : Nat} {i : Instruction}
    (h : decodeOne model bytes = .complete length i) (hdefined : i.isUndefined = false) :
    ∃ (run : List UInt8) (opcode : Opcode) (addressing : Option UInt8) (behind : List UInt8)
      (others : List (ByteUse × UInt8)),
      bytes = run ++ (opcode.bytes ++ (addressing.toList ++ behind)) ∧
      (∀ byte ∈ run, IsPrefix model byte) ∧ opcode.IsLegal model ∧
      (addressing.isSome ↔ opcode.TakesAddressing) ∧
      (Decoder.new model).uses bytes =
        run.map (ByteUse.modifier, ·) ++ (opcode.bytes.map (ByteUse.opcode, ·) ++
          (addressing.toList.map (ByteUse.addressing, ·) ++ others)) ∧
      ∀ u ∈ others, u.1 = .rest := by
  have hrun : ∀ byte ∈ prefixRun model bytes, IsPrefix (Decoder.new model).model byte :=
    fun byte hbyte => isPrefix_of_mem_prefixRun hbyte
  have hshort := length_prefixRun_le h hdefined
  have hroom : (Decoder.new model).consumed + (prefixRun model bytes).length < maxLength := by
    rw [Decoder.new, maxLength, Nat.zero_add]
    omega
  have hhead : ∀ opcode ∈ (afterPrefixRun model bytes).head?, ¬ IsPrefix model opcode :=
    fun opcode h => not_isPrefix_of_mem_head? h
  have hdecode := h
  rw [decodeOne] at hdecode
  rw [← prefixRun_append model bytes, Decoder.decode_run rfl hrun hroom] at hdecode
  obtain ⟨opcode, hlegal, rest, hrest⟩ := Decoder.exists_isLegal rfl hhead hdecode hdefined
  have huses := Decoder.uses_run (d := .new model) rfl hrun hroom (opcode.bytes ++ rest)
  have hagrees := opcode.agreesWith_shape
  have hstep := Decoder.step_atLastByte (d := (Decoder.new model).passing (prefixRun model bytes))
    rfl hlegal
  rw [← hrest, Decoder.decode_opcode rfl hlegal] at hdecode
  rw [Decoder.uses_opcode rfl hlegal, hstep, hrest, prefixRun_append] at huses
  rcases hlegal.shape_cases with ⟨body, layout, hshape⟩ | ⟨form, width, hshape⟩
  · rw [hshape] at hagrees huses
    refine ⟨_, opcode, none, rest, _, ?_, hrun, hlegal, ?_, huses,
      Decoder.uses_awaitTrailing _ body layout⟩
    · exact (hrest ▸ prefixRun_append model bytes).symm
    · simpa using hagrees.1
  · rw [hshape] at hagrees huses hdecode
    obtain ⟨byte, behind, others, rfl, hothers, hrestOnly⟩ :=
      Decoder.exists_uses_modRm rfl hdecode
    refine ⟨_, opcode, some byte, behind, others, ?_, hrun, hlegal, ?_, ?_, hrestOnly⟩
    · exact (hrest ▸ prefixRun_append model bytes).symm
    · simpa using hagrees.1
    · exact huses.trans (congrArg (fun us => _ ++ (_ ++ us)) hothers)

end Iapx86
