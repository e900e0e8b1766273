import Iapx86.Proofs.FlatDecoder.Refinement

/-!
# Sessions of a decoder with all its fields side by side

No calls bring a `FlatDecoder` to a fault, and between calls its fields fit together
(`FlatDecoder.Fits`). So what is known of sessions with a `Decoder` is known of those with a
`FlatDecoder`: where the bytes are cut does not matter (`FlatDecoder.session_append`), and the owner
can count along (`FlatDecoder.session_counted`). What it has taken in of an instruction is parted by
the stage in which trailing bytes are received: those are in the register, and it is as it was when
that stage began but for them.
-/

namespace Iapx86

/-! ## The trailing bytes received -/

namespace Decoder

variable {d d' : Decoder} {model : Model} {pending : List UInt8} {byte : UInt8}

theorem flat_emptied (d : Decoder) (consumed : Nat) :
    { d with phase := d.phase.emptied, consumed }.flat =
      { d.flat with consumed, inward := {}, trailingReceived := 0 } := by
  obtain ⟨model, phase, prefixes, count⟩ := d
  cases phase <;> rfl

/-- A byte leads to a phase with no trailing bytes received, or it is one of them. -/
theorem received_of_step (h : d.step byte = .pending d') :
    d'.phase.received = 0 ∧ d'.phase.register = {} ∧ d'.phase.emptied = d'.phase ∨
      d'.phase.received = d.phase.received + 1 ∧
        d'.phase.register = d.phase.register.push byte ∧
        ∀ consumed, { d' with phase := d'.phase.emptied, consumed } =
          { d with phase := d.phase.emptied, consumed } := by
  cases hphase : d.phase with
  | trailing body layout received register =>
      right
      rw [step, hphase] at h
      dsimp only at h
      unfold stepTrailing at h
      dsimp only at h
      split at h
      · cases h
        exact ⟨rfl, rfl, fun _ => rfl⟩
      · cases h
  | opcode | secondary | modRm form width | scaleIndexBase body layout =>
      left
      have hleads := (step_eq_pending h).2
      rw [hphase] at hleads
      generalize d'.phase = phase at hleads
      cases hleads <;> exact ⟨rfl, rfl, rfl⟩

/-- The last byte taken in led to where the decoder is. -/
theorem InProgress.of_append_singleton (h : InProgress model (pending ++ [byte]) d) :
    ∃ e, InProgress model pending e ∧ e.step byte = .pending d := by
  obtain ⟨atLeast, hdecode⟩ := h
  cases hpending : (Decoder.new model).decode pending with
  | mk result e =>
      cases result with
      | complete length i =>
          rw [decode_append_of_complete hpending] at hdecode
          cases hdecode
      | needMore missing =>
          rw [decode_append_of_needMore hpending, decode_cons] at hdecode
          refine ⟨e, ⟨missing, hpending⟩, ?_⟩
          cases hstep : e.step byte with
          | complete length i =>
              rw [hstep] at hdecode
              cases hdecode
          | pending next =>
              rw [hstep] at hdecode
              cases hdecode
              rfl

/-- The bytes of the instruction in progress are some that lead up to the trailing bytes, if to
these at all, and the trailing bytes received. -/
theorem InProgress.exists_append (h : InProgress model pending d) :
    ∃ head tail, pending = head ++ tail ∧
      InProgress model head { d with phase := d.phase.emptied, consumed := head.length } ∧
      d.phase.received = tail.length ∧ d.phase.register = .gather tail := by
  induction pending using List.reverseRecOn generalizing d with
  | nil =>
      rw [h.eq_new]
      exact ⟨[], [], rfl, .new model, rfl, rfl⟩
  | append_singleton pending byte ih =>
      obtain ⟨e, he, hstep⟩ := h.of_append_singleton
      rcases received_of_step hstep with ⟨hreceived, hregister, hphase⟩ |
        ⟨hreceived, hregister, hbefore⟩
      · refine ⟨pending ++ [byte], [], (List.append_nil _).symm, ?_, hreceived, hregister⟩
        rw [hphase, ← h.consumed_eq]
        exact h
      · obtain ⟨head, tail, hpending, hhead, hlength, hgather⟩ := ih he
        refine ⟨head, tail ++ [byte], ?_, ?_, ?_, ?_⟩
        · rw [hpending, List.append_assoc]
        · rw [hbefore]
          exact hhead
        · rw [hreceived, hlength, List.length_append, List.length_singleton]
        · rw [hregister, hgather, TrailingRegister.gather_append_singleton]

/-! ## Sessions -/

theorem IsSound.toNat_trailingReceived (h : d.IsSound) :
    d.flat.trailingReceived.toNat = d.phase.received := by
  have hsize := d.phase.layout.size_lt
  have hreceived := h.phase.received_le
  exact Fault.toNat_toUInt8 (by omega)

theorem decode_new_flat (model : Model) (bytes : List UInt8) :
    (FlatDecoder.new model).decode bytes = .ok (flatResult ((new model).decode bytes)) :=
  (isSound_new model).decode_flat bytes

theorem IsSound.call_flat (h : d.IsSound) (c : Call) : d.flat.call c = .ok (d.call c).flat := by
  cases c with
  | decode bytes =>
      rw [FlatDecoder.call, h.decode_flat]
      rfl
  | reset =>
      rfl

theorem InProgress.after_flat (h : InProgress model pending d) (calls : List Call) :
    d.flat.after calls = .ok (d.after calls).flat := by
  induction calls generalizing d pending with
  | nil => rfl
  | cons c calls ih =>
      rw [FlatDecoder.after, List.foldlM_cons, h.isSound.call_flat]
      exact ih (h.call c)

end Decoder

namespace FlatDecoder

/-- The fields fit together. -/
structure Fits (f : FlatDecoder) : Prop where
  stage_ne_ready : f.stage ≠ .ready
  isSome_form? : f.form?.isSome ↔ f.stage = .modRm
  displacementSize : f.displacementSize ∈ [0, 1, 2]
  operandSize : f.operandSize ∈ [0, 1, 2, 4]
  farPointer : f.operandSize = 4 → f.displacementSize = 0
  /-- Not all trailing bytes are received, and of at most four. -/
  trailing : f.stage = .trailing →
    f.trailingReceived.toNat < f.displacementSize.toNat + f.operandSize.toNat ∧
      f.displacementSize.toNat + f.operandSize.toNat ≤ 4
  trailingReceived : f.stage ≠ .trailing → f.trailingReceived = 0

end FlatDecoder

theorem TrailingLayout.IsProper.sizes {layout : TrailingLayout} (h : layout.IsProper) :
    let displacement := layout.displacement.size.toUInt8
    let operand := layout.operand.size.toUInt8
    displacement ∈ [0, 1, 2] ∧ operand ∈ [0, 1, 2, 4] ∧ (operand = 4 → displacement = 0) ∧
      displacement.toNat + operand.toNat = layout.size := by
  obtain ⟨displacement, operand⟩ := layout
  cases operand with
  | farPointer =>
      obtain rfl : displacement = .absent := h rfl
      decide
  | absent | byte | word => cases displacement <;> decide

theorem Decoder.IsSound.fits_flat {d : Decoder} (h : d.IsSound) : d.flat.Fits := by
  obtain ⟨hdisplacement, hoperand, hfar, hsize⟩ := h.phase.isProper.sizes
  exact {
    stage_ne_ready := d.phase.stage_ne_ready
    isSome_form? := d.phase.isSome_form?_iff
    displacementSize := hdisplacement
    operandSize := hoperand
    farPointer := hfar
    trailing := fun hstage => by
      rw [h.toNat_trailingReceived]
      exact ⟨hsize ▸ h.phase.received_lt hstage, hsize ▸ h.phase.isProper.size_le⟩
    trailingReceived := fun hstage => congrArg Nat.toUInt8 (Phase.received_eq_zero hstage) }

namespace FlatDecoder

/-- Whatever a decoder was used for, no call has come to a fault, and none will: the next one is
answered as by the decoder that has what is settled in its phase. Its fields fit together. The bytes
of the instruction in progress are some that lead up to the stage that it is in, and then the
trailing bytes received; the register holds these, the last of them highest, and nothing below. The
bytes that lead there leave a new decoder with the same fields, but for the count and the register,
which is empty. -/
theorem session_flat (model : Model) (calls : List Call) :
    let d := (Decoder.new model).after calls
    let held := (Decoder.new model).held [] calls
    ∃ f, (new model).after calls = .ok f ∧ f.Fits ∧ f.consumed = held.length ∧
      (∀ bytes, ∃ f', f.decode bytes = .ok ((d.decode bytes).1, f')) ∧
      ∃ head tail answer, held = head ++ tail ∧ f.trailingReceived.toNat = tail.length ∧
        (new model).decode head = .ok (answer,
          { f with consumed := head.length, inward := {}, trailingReceived := 0 }) ∧
        f.inward.bits.toNat = littleEndian tail * 256 ^ (8 - tail.length) := by
  intro d held
  have hheld : Decoder.InProgress model held d := (Decoder.InProgress.new model).after calls
  obtain ⟨head, tail, happend, ⟨atLeast, hhead⟩, hreceived, hregister⟩ := hheld.exists_append
  have hcount : d.flat.trailingReceived.toNat = tail.length :=
    hheld.isSound.toNat_trailingReceived.trans hreceived
  have height : tail.length ≤ 8 := by
    have hsize := d.phase.layout.size_lt
    have hle := hheld.isSound.phase.received_le
    omega
  have hstart : (new model).decode head = .ok (.needMore atLeast,
      { d.flat with consumed := head.length, inward := {}, trailingReceived := 0 }) := by
    rw [← Decoder.flat_emptied]
    rw [Decoder.decode_new_flat, hhead]
    rfl
  refine ⟨d.flat, (Decoder.InProgress.new model).after_flat calls, hheld.isSound.fits_flat,
    hheld.consumed_eq, fun bytes => ⟨_, hheld.isSound.decode_flat bytes⟩, head, tail, _, happend,
    hcount, hstart, ?_⟩
  rw [show d.flat.inward = _ from hregister]
  exact TrailingRegister.toNat_bits_gather tail height

example : ((new .i8086).after [.decode [0x90], .decode [0xC7, 0x06, 0x34, 0x12, 0x78]]).toOption.map
    (fun f => (f.trailingReceived, f.inward.bits)) = some (3, 0x7812340000000000) := by
  decide +kernel

/-- Whether there is no instruction in progress. -/
def isIdle (f : FlatDecoder) : Bool := f.stage = .opcode && f.consumed = 0

/-- The bytes that calls take in and do not answer with an instruction, when there are `count`
before. -/
def absorbed (f : FlatDecoder) (count : Nat) : List Call → Except Fault Nat
  | [] => .ok count
  | .reset :: calls => f.reset.absorbed 0 calls
  | .decode bytes :: calls =>
      (f.decode bytes).bind fun (answer, f') =>
        f'.absorbed (if answer.isComplete then 0 else count + bytes.length) calls

end FlatDecoder

namespace Decoder

variable {d : Decoder} {model : Model} {pending : List UInt8}

theorem InProgress.absorbed_flat (h : InProgress model pending d) (calls : List Call) :
    d.flat.absorbed pending.length calls = .ok (d.held pending calls).length := by
  induction calls generalizing d pending with
  | nil => rfl
  | cons c calls ih =>
      have hnext := ih (h.call c)
      cases c with
      | reset => exact hnext
      | decode bytes =>
          rw [FlatDecoder.absorbed, h.isSound.decode_flat, held, ← hnext, Decoder.call, hold]
          cases hdecode : d.decode bytes with
          | mk answer d' =>
              cases answer with
              | complete length i => rfl
              | needMore atLeast =>
                  exact congrArg (d'.flat.absorbed · calls) List.length_append.symm

theorem InProgress.isIdle_flat_iff (h : InProgress model pending d) :
    d.flat.isIdle = true ↔ pending = [] := by
  constructor
  · intro hidle
    simp only [FlatDecoder.isIdle, Bool.and_eq_true, decide_eq_true_eq] at hidle
    exact List.eq_nil_of_length_eq_zero (h.consumed_eq.symm.trans hidle.2)
  · rintro rfl
    rw [h.eq_new]
    rfl

end Decoder

namespace FlatDecoder

/-- Whatever a decoder was used for before, it can be offered its bytes in pieces, and there is no
fault in either way. A complete instruction is the same with more bytes behind it, and leaves the
same decoder. If the bytes end within an instruction, the next call gives what one call with both
pieces gives, the answer and the decoder alike. And it answers as a new one does that is offered the
bytes of the instruction in progress again. -/
theorem session_append (model : Model) (calls : List Call) (a b : List UInt8) :
    ∃ f, (new model).after calls = .ok f ∧
      (∃ answer f', f.decode a = .ok (answer, f') ∧
        f.decode (a ++ b) = if answer.isComplete then .ok (answer, f') else f'.decode b) ∧
      ∃ pending, f.consumed = pending.length ∧
        ∀ bytes, f.decode bytes = (new model).decode (pending ++ bytes) := by
  have hheld := (Decoder.InProgress.new model).after calls
  generalize hd : (Decoder.new model).after calls = d at hheld
  generalize (Decoder.new model).held [] calls = pending at hheld
  refine ⟨d.flat, hd ▸ (Decoder.InProgress.new model).after_flat calls,
    ⟨_, _, hheld.isSound.decode_flat a, ?_⟩, pending, hheld.consumed_eq, fun bytes => ?_⟩
  · rw [hheld.isSound.decode_flat]
    cases hdecode : d.decode a with
    | mk answer d' =>
        cases answer with
        | complete length i =>
            rw [Decoder.decode_append_of_complete hdecode]
            rfl
        | needMore atLeast =>
            have hnext := hheld.decode_needMore hdecode
            rw [Decoder.decode_append_of_needMore hdecode]
            exact (hnext.isSound.decode_flat b).symm
  · rw [hheld.isSound.decode_flat, hheld.decode_eq, Decoder.decode_new_flat]

/-- Whatever a decoder was used for before, its owner knows what it holds by counting the bytes that
calls have taken in since the last instruction or reset. There are none if and only if the decoder
is idle, and then all its fields are those of a new one, as they are behind each instruction. A call
that answers with an instruction takes at least one of its bytes, and the instruction is as long as
these and those before together; one that does not takes them all. There are never as many as the
longest instruction has, so that many bytes always complete one. -/
theorem session_counted (model : Model) (calls : List Call) (bytes : List UInt8) :
    ∃ f c, (new model).after calls = .ok f ∧ (new model).absorbed 0 calls = .ok c ∧
      (f.isIdle = true ↔ c = 0) ∧ (f.isIdle = true ↔ f = new model) ∧ f.consumed = c ∧
      c ≤ (if .i80386 ≤ model then 20 else 19) ∧
      ((∃ length i u, f.decode bytes = .ok (.complete length i, new model) ∧ 1 ≤ u ∧
          u ≤ bytes.length ∧ length = c + u) ∨
        ∃ atLeast f', f.decode bytes = .ok (.needMore atLeast, f') ∧
          f'.consumed = c + bytes.length) ∧
      ((if .i80386 ≤ model then 21 else 20) ≤ bytes.length →
        ∃ length i, (new model).decode bytes = .ok (.complete length i, new model)) := by
  have hheld := (Decoder.InProgress.new model).after calls
  have hcount := (Decoder.InProgress.new model).absorbed_flat calls
  have hafter := (Decoder.InProgress.new model).after_flat calls
  generalize (Decoder.new model).after calls = d at hheld hafter
  generalize (Decoder.new model).held [] calls = pending at hheld hcount
  have hconsumed := hheld.consumed_eq
  refine ⟨d.flat, pending.length, hafter, hcount, ?_, ⟨fun hidle => ?_, fun hnew => ?_⟩, hconsumed,
    hheld.length_le, ?_, fun hlong => ?_⟩
  · rw [hheld.isIdle_flat_iff, List.length_eq_zero_iff]
  · rw [hheld.isIdle_flat_iff] at hidle
    subst hidle
    rw [hheld.eq_new]
    rfl
  · rw [hnew]
    rfl
  · rw [hheld.isSound.decode_flat]
    cases hdecode : d.decode bytes with
    | mk answer d' =>
        cases answer with
        | complete length i =>
            have hlength := Decoder.length_of_decode_complete (congrArg Prod.fst hdecode)
            rw [hheld.decode_complete hdecode]
            exact .inl ⟨length, i, length - pending.length, rfl, by omega, by omega, by omega⟩
        | needMore atLeast =>
            refine .inr ⟨atLeast, d'.flat, rfl, ?_⟩
            rw [← hconsumed]
            exact Decoder.consumed_of_decode_needMore hdecode
  · have hcomplete := Decoder.isComplete_decodeOne hlong
    rw [decodeOne] at hcomplete
    rw [Decoder.decode_new_flat]
    cases hdecode : (Decoder.new model).decode bytes with
    | mk answer d' =>
        rw [hdecode] at hcomplete
        cases answer with
        | complete length i =>
            rw [Decoder.eq_new_of_decode_complete hdecode]
            exact ⟨length, i, rfl⟩
        | needMore atLeast => cases hcomplete

end FlatDecoder

end Iapx86
