import Iapx86.Proofs.FlatDecoder.Session
import Iapx86.Proofs.Stream

/-!
# Streams through a decoder with all its fields side by side

The calls of a `Feeding` are made with a `FlatDecoder` instead, and end at the first fault. There is
none: each call comes to what it comes to with the `Decoder` of the same fields
(`Feeding.offer_flat`), so all of them do (`Feeding.run_flat`), and find the instructions that
`decodeAll` finds.
-/

namespace Iapx86

/-- Where somebody has got to who offers code to a `FlatDecoder`, piece by piece. -/
structure FlatFeeding where
  decoder : FlatDecoder
  /-- The bytes taken in since an instruction was last complete. -/
  carried : Nat := 0
  /-- The code from the current position on. -/
  rest : List UInt8
  /-- The instructions completed so far. -/
  instructions : List DecodedInstruction := []

namespace FlatFeeding

/-- At the start of the code, with a new decoder. -/
def start (model : Model) (code : List UInt8) : FlatFeeding :=
  { decoder := .new model, rest := code }

/-- One call: that many bytes are offered from the current position, or what is left. -/
def offer (size : Nat) (f : FlatFeeding) : Except Fault FlatFeeding := do
  let piece := f.rest.take size
  let (answer, decoder) ← f.decoder.decode piece
  match answer with
  | .complete length instruction =>
      return { decoder, carried := 0, rest := f.rest.drop (length - f.carried),
               instructions := f.instructions ++ [⟨length, instruction⟩] }
  | .needMore _ =>
      return { f with decoder, carried := f.carried + piece.length,
                      rest := f.rest.drop piece.length }

/-- Calls of the given sizes, at most that many, and none once nothing is left to offer. -/
def run (sizes : Nat → ℕ+) : Nat → FlatFeeding → Except Fault FlatFeeding
  | 0, f => .ok f
  | calls + 1, f => do
      let f' ← run sizes calls f
      if f'.rest = [] then return f' else f'.offer (sizes calls)

end FlatFeeding

namespace Feeding

/-- The same position with the fields of the decoder side by side. -/
def flat (f : Feeding) : FlatFeeding where
  decoder := f.decoder.flat
  carried := f.carried
  rest := f.rest
  instructions := f.instructions

theorem offer_flat {f : Feeding} (h : f.decoder.IsSound) (size : Nat) :
    f.flat.offer size = .ok (f.offer size).flat := by
  unfold FlatFeeding.offer
  change (f.decoder.flat.decode (f.rest.take size) >>= _) = _
  rw [h.decode_flat]
  cases hdecode : f.decoder.decode (f.rest.take size) with
  | mk answer d' =>
      cases answer with
      | complete length i =>
          rw [offer_of_complete hdecode]
          rfl
      | needMore atLeast =>
          rw [offer_of_needMore hdecode]
          rfl

theorem Follows.isSound {model : Model} {code : List UInt8} {f : Feeding}
    (hf : f.Follows model code) : f.decoder.IsSound := by
  obtain ⟨pending, hprogress, -⟩ := hf
  exact hprogress.isSound

theorem run_flat (model : Model) (code : List UInt8) (sizes : Nat → ℕ+) (calls : Nat) :
    (FlatFeeding.start model code).run sizes calls =
      .ok ((start model code).run sizes calls).flat := by
  induction calls with
  | zero => rfl
  | succ calls ih =>
      have hsound := ((follows_start model code).run sizes calls).isSound
      rw [FlatFeeding.run, ih, Feeding.run]
      split
      · next hnil => exact if_pos hnil
      · next hne =>
          rw [← offer_flat hsound]
          exact if_neg hne

end Feeding

/-- However the code is cut, no call comes to a fault, and the decoder finds the instructions that
are found by starting anew at each of them. As many calls as there are bytes, each of a positive
size, offer all of the code; then the instructions and the number of bytes without an answer are
those of `decodeAll`, and the decoder is as if it had been offered just these bytes. What is found
by starting anew is what a new decoder of this kind answers. -/
theorem FlatFeeding.run_eq_decodeAll (model : Model) (code : List UInt8) (sizes : Nat → ℕ+) :
    let instructions := (decodeAll model code).1
    let pending := (decodeAll model code).2
    ∃ last, (start model code).run sizes code.length = .ok last ∧
      last.rest = [] ∧ last.instructions = instructions ∧ last.carried = pending.length ∧
      (∃ atLeast, (FlatDecoder.new model).decode pending = .ok (.needMore atLeast, last.decoder)) ∧
      (instructions.map (·.length)).sum + pending.length = code.length ∧
      (∀ k, decodeAll model (code.drop ((instructions.take k).map (·.length)).sum) =
        (instructions.drop k, pending)) ∧
      ∀ bytes, ((FlatDecoder.new model).decode bytes).map Prod.fst =
        .ok (decodeOne model bytes) := by
  intro instructions pending
  obtain ⟨hrest, hinstructions, hcarried, atLeast, hpending⟩ :=
    Feeding.exists_pending model code sizes
  refine ⟨_, Feeding.run_flat model code sizes code.length, hrest, hinstructions, hcarried,
    ⟨atLeast, ?_⟩, sum_length_decodeAll model code, decodeAll_drop model code, fun bytes => ?_⟩
  · rw [Decoder.decode_new_flat, hpending]
    rfl
  · rw [Decoder.decode_new_flat]
    rfl

end Iapx86
