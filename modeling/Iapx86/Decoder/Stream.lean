import Iapx86.Decoder.Progress

/-!
# Streams of instructions

Two ways from machine code to the list of its instructions. `decodeAll` starts anew at each
instruction and drops as many bytes as it is long. `Decoder.stream` keeps one decoder and offers it
the code in pieces, whose sizes are of the caller's choosing: a piece that ends in the middle of an
instruction is taken in whole, and of one that ends an instruction the rest is offered again.
-/

namespace Iapx86

/-- An instruction and the number of its bytes. -/
structure DecodedInstruction where
  length : Nat
  instruction : Instruction
  deriving DecidableEq, Repr

/-- The instructions that the bytes start with, and the bytes that are left because they end
before the next instruction does. -/
def decodeAll (model : Model) (bytes : List UInt8) : List DecodedInstruction × List UInt8 :=
  match _h : decodeOne model bytes with
  | .complete length instruction =>
      let (instructions, pending) := decodeAll model (bytes.drop length)
      (⟨length, instruction⟩ :: instructions, pending)
  | .needMore _ => ([], bytes)
termination_by bytes.length
decreasing_by
  have := length_of_decodeOne_complete _h
  simp only [List.length_drop]
  omega

theorem decodeAll_of_complete {model : Model} {bytes : List UInt8} {length : Nat}
    {i : Instruction} (h : decodeOne model bytes = .complete length i) :
    decodeAll model bytes =
      (⟨length, i⟩ :: (decodeAll model (bytes.drop length)).1,
        (decodeAll model (bytes.drop length)).2) := by
  rw [decodeAll]
  split
  · next length' i' h' =>
      rw [h, DecodeResult.complete.injEq] at h'
      rw [h'.1, h'.2]
  · next h' =>
      rw [h] at h'
      exact nomatch h'

theorem decodeAll_of_needMore {model : Model} {bytes : List UInt8} {atLeast : Nat}
    (h : decodeOne model bytes = .needMore atLeast) : decodeAll model bytes = ([], bytes) := by
  rw [decodeAll]
  split
  · next h' =>
      rw [h] at h'
      exact nomatch h'
  · rfl

namespace Decoder

/-- Offers the bytes in pieces, the `k`-th piece being of `sizes k` bytes, or of one if that is
none. Answers with the completed instructions and with the decoder at the end, which is in the
middle of an instruction if the bytes are. -/
def stream (sizes : Nat → Nat) (k : Nat) (d : Decoder) (bytes : List UInt8) :
    List DecodedInstruction × Decoder :=
  if _nonempty : bytes = [] then ([], d)
  else
    let offered := bytes.take (max 1 (sizes k))
    match _h : d.decode offered with
    | (.complete length instruction, d') =>
        let (instructions, last) := stream sizes (k + 1) d' (bytes.drop (length - d.consumed))
        (⟨length, instruction⟩ :: instructions, last)
    | (.needMore _, d') => stream sizes (k + 1) d' (bytes.drop offered.length)
termination_by bytes.length
decreasing_by
  · have hlength := length_of_decode_complete (congrArg Prod.fst _h)
    simp only [offered, List.length_take] at hlength
    simp only [List.length_drop]
    omega
  · have := List.length_pos_iff.mpr _nonempty
    simp only [List.length_take, List.length_drop]
    omega

@[simp] theorem stream_nil (sizes : Nat → Nat) (k : Nat) (d : Decoder) :
    d.stream sizes k [] = ([], d) := by
  rw [stream, dif_pos rfl]

theorem stream_of_complete {sizes : Nat → Nat} {k : Nat} {d d' : Decoder} {bytes : List UInt8}
    {length : Nat} {i : Instruction} (hne : bytes ≠ [])
    (h : d.decode (bytes.take (max 1 (sizes k))) = (.complete length i, d')) :
    d.stream sizes k bytes =
      (⟨length, i⟩ :: (d'.stream sizes (k + 1) (bytes.drop (length - d.consumed))).1,
        (d'.stream sizes (k + 1) (bytes.drop (length - d.consumed))).2) := by
  rw [stream, dif_neg hne]
  dsimp only
  split
  · next h' =>
      rw [h] at h'
      cases h'
      rfl
  · next h' =>
      rw [h] at h'
      cases h'

theorem stream_of_needMore {sizes : Nat → Nat} {k : Nat} {d d' : Decoder} {bytes : List UInt8}
    {atLeast : Nat} (hne : bytes ≠ [])
    (h : d.decode (bytes.take (max 1 (sizes k))) = (.needMore atLeast, d')) :
    d.stream sizes k bytes =
      d'.stream sizes (k + 1) (bytes.drop (bytes.take (max 1 (sizes k))).length) := by
  rw [stream, dif_neg hne]
  dsimp only
  split
  · next h' =>
      rw [h] at h'
      cases h'
  · next h' =>
      rw [h] at h'
      cases h'
      rfl

end Decoder

end Iapx86
