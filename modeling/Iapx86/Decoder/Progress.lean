import Iapx86.Decoder

/-!
# Progress of the decoder

Every byte counts: a step adds exactly one to the bytes of the instruction in progress, whether it
ends the instruction or not (`consumed_step`). So a completed instruction is longer than what was
there before the call, and no longer than that and the bytes of the call together; and if none is
completed, all bytes of the call are taken in.
-/

namespace Iapx86

/-- The number of bytes of the instruction that a step ended or continued. -/
def StepResult.consumed : StepResult → Nat
  | complete length _ => length
  | pending d => d.consumed

namespace Decoder

@[simp] theorem consumed_enter (d : Decoder) (phase : Phase) :
    (d.enter phase).consumed = d.consumed + 1 := rfl

@[simp] theorem consumed_refuse (d : Decoder) : d.refuse.consumed = d.consumed + 1 := rfl

@[simp] theorem consumed_finish (d : Decoder) (body : Body) :
    (d.finish body).consumed = d.consumed + 1 := rfl

@[simp] theorem consumed_awaitTrailing (d : Decoder) (body : Body) (layout : TrailingLayout) :
    (d.awaitTrailing body layout).consumed = d.consumed + 1 := by
  unfold awaitTrailing
  split <;> rfl

@[simp] theorem consumed_stepOpcode (d : Decoder) (byte : UInt8) :
    (d.stepOpcode byte).consumed = d.consumed + 1 := by
  unfold stepOpcode
  repeat' split
  all_goals simp

@[simp] theorem consumed_stepSecondary (d : Decoder) (byte : UInt8) :
    (d.stepSecondary byte).consumed = d.consumed + 1 := by
  unfold stepSecondary
  repeat' split
  all_goals simp

@[simp] theorem consumed_stepModRm (d : Decoder) (form : ModRmForm) (width : Width)
    (byte : UInt8) : (d.stepModRm form width byte).consumed = d.consumed + 1 := by
  unfold stepModRm
  dsimp only
  repeat' split
  all_goals simp

@[simp] theorem consumed_stepTrailing (d : Decoder) (body : Body) (layout : TrailingLayout)
    (received : Nat) (register : TrailingRegister) (byte : UInt8) :
    (d.stepTrailing body layout received register byte).consumed = d.consumed + 1 := by
  unfold stepTrailing
  dsimp only
  split <;> simp

/-- A step adds one byte to the instruction in progress. -/
@[simp] theorem consumed_step (d : Decoder) (byte : UInt8) :
    (d.step byte).consumed = d.consumed + 1 := by
  unfold step
  split <;> simp

/-- A completed instruction takes at least one of the bytes offered, and at most all of them. -/
theorem length_of_decode_complete {d : Decoder} {bytes : List UInt8} {length : Nat}
    {i : Instruction} (h : (d.decode bytes).1 = .complete length i) :
    d.consumed < length ∧ length ≤ d.consumed + bytes.length := by
  induction bytes generalizing d with
  | nil => simp at h
  | cons byte bytes ih =>
      have hstep := d.consumed_step byte
      rw [decode_cons] at h
      cases hresult : d.step byte with
      | complete length' i' =>
          rw [hresult] at h hstep
          simp only [DecodeResult.complete.injEq, StepResult.consumed] at h hstep
          simp only [List.length_cons]
          omega
      | pending d' =>
          rw [hresult] at h hstep
          simp only [StepResult.consumed] at hstep
          have hrest := ih h
          simp only [List.length_cons]
          omega

/-- Behind a completed instruction nothing is in progress. -/
theorem consumed_of_decode_complete {d d' : Decoder} {bytes : List UInt8} {length : Nat}
    {i : Instruction} (h : d.decode bytes = (.complete length i, d')) : d'.consumed = 0 := by
  induction bytes generalizing d with
  | nil => cases h
  | cons byte bytes ih =>
      rw [decode_cons] at h
      cases hstep : d.step byte with
      | complete length' i' =>
          rw [hstep] at h
          cases h
          rfl
      | pending next =>
          rw [hstep] at h
          exact ih h

/-- While the instruction goes on, all bytes are taken in. -/
theorem consumed_of_decode_needMore {d d' : Decoder} {bytes : List UInt8} {atLeast : Nat}
    (h : d.decode bytes = (.needMore atLeast, d')) :
    d'.consumed = d.consumed + bytes.length := by
  induction bytes generalizing d with
  | nil =>
      simp only [decode_nil, Prod.mk.injEq] at h
      rw [← h.2, List.length_nil, Nat.add_zero]
  | cons byte bytes ih =>
      rw [decode_cons] at h
      cases hstep : d.step byte with
      | complete length i =>
          rw [hstep] at h
          simp at h
      | pending next =>
          have hconsumed := d.consumed_step byte
          rw [hstep] at h hconsumed
          rw [ih h, List.length_cons]
          simp only [StepResult.consumed] at hconsumed
          omega

end Decoder

/-- A completed instruction has at least one byte, and all its bytes were offered. -/
theorem length_of_decodeOne_complete {model : Model} {bytes : List UInt8} {length : Nat}
    {i : Instruction} (h : decodeOne model bytes = .complete length i) :
    0 < length ∧ length ≤ bytes.length := by
  have hlength := Decoder.length_of_decode_complete h
  simp only [Decoder.new] at hlength
  omega

end Iapx86
