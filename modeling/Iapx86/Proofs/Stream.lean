import Iapx86.Decoder.Stream
import Iapx86.Proofs.Session
import Mathlib.Algebra.GroupWithZero.Nat
import Mathlib.Data.PNat.Defs

/-!
# Streams cut at any places

The owner of a decoder who reads a long piece of code calls it again and again, each time with as
many bytes as are at hand. `Feeding` is the position of such an owner, who counts the bytes that
the decoder has taken in without an answer, and `Feeding.offer` is one call. `Feeding.run` makes
the calls one after the other until nothing is left to offer.

The measure of it all is `decodeAll`, which starts anew at each instruction. One call preserves that
the instructions found so far, followed by what `decodeAll` finds from the instruction in progress
on, are what it finds in the whole code (`Follows.offer`). No call is in vain, so as many calls as
there are bytes are enough (`length_rest_run_le`), and at the end only the bytes are left that
`decodeAll` leaves too.
-/

namespace Iapx86

/-- Where somebody has got to who offers code to a decoder, piece by piece. -/
structure Feeding where
  decoder : Decoder
  /-- The bytes taken in since an instruction was last complete. -/
  carried : Nat := 0
  /-- The code from the current position on. -/
  rest : List UInt8
  /-- The instructions completed so far. -/
  instructions : List DecodedInstruction := []

namespace Feeding

/-- At the start of the code, with a new decoder. -/
def start (model : Model) (code : List UInt8) : Feeding := { decoder := .new model, rest := code }

/-- One call: that many bytes are offered from the current position, or what is left. -/
def offer (size : Nat) (f : Feeding) : Feeding :=
  let piece := f.rest.take size
  match f.decoder.decode piece with
  | (.complete length instruction, decoder) =>
      { decoder, carried := 0, rest := f.rest.drop (length - f.carried),
        instructions := f.instructions ++ [⟨length, instruction⟩] }
  | (.needMore _, decoder) =>
      { f with decoder, carried := f.carried + piece.length, rest := f.rest.drop piece.length }

/-- Calls of the given sizes, at most that many, and none once nothing is left to offer. -/
def run (sizes : Nat → ℕ+) : Nat → Feeding → Feeding
  | 0, f => f
  | calls + 1, f =>
      let f' := run sizes calls f
      if f'.rest = [] then f' else f'.offer (sizes calls)

theorem offer_of_complete {f : Feeding} {d' : Decoder} {size length : Nat} {i : Instruction}
    (h : f.decoder.decode (f.rest.take size) = (.complete length i, d')) :
    f.offer size =
      { decoder := d', carried := 0, rest := f.rest.drop (length - f.carried),
        instructions := f.instructions ++ [⟨length, i⟩] } := by
  rw [offer, h]

theorem offer_of_needMore {f : Feeding} {d' : Decoder} {size atLeast : Nat}
    (h : f.decoder.decode (f.rest.take size) = (.needMore atLeast, d')) :
    f.offer size =
      { f with
        decoder := d'
        carried := f.carried + (f.rest.take size).length
        rest := f.rest.drop (f.rest.take size).length } := by
  rw [offer, h]

/-- The instructions found so far are those that the code starts with, and the decoder has taken in
the bytes from there to the current position. -/
def Follows (model : Model) (code : List UInt8) (f : Feeding) : Prop :=
  ∃ pending, f.decoder.InProgress model pending ∧ f.carried = pending.length ∧
    decodeAll model code =
      (f.instructions ++ (decodeAll model (pending ++ f.rest)).1,
        (decodeAll model (pending ++ f.rest)).2)

theorem follows_start (model : Model) (code : List UInt8) : (start model code).Follows model code :=
  ⟨[], .new model, rfl, rfl⟩

theorem length_of_offer_complete {f : Feeding} {d' : Decoder} {size length : Nat} {i : Instruction}
    (h : f.decoder.decode (f.rest.take size) = (.complete length i, d')) :
    f.decoder.consumed < length ∧ length ≤ f.decoder.consumed + f.rest.length := by
  have hlength := Decoder.length_of_decode_complete (congrArg Prod.fst h)
  rw [List.length_take] at hlength
  omega

/-- One call goes on as `decodeAll` does. -/
theorem Follows.offer {model : Model} {code : List UInt8} {f : Feeding}
    (hf : f.Follows model code) (size : Nat) : (f.offer size).Follows model code := by
  obtain ⟨pending, hprogress, hcarried, hall⟩ := hf
  have hcode : pending ++ f.rest = pending ++ f.rest.take size ++ f.rest.drop size := by
    rw [List.append_assoc, List.take_append_drop]
  cases hdecode : f.decoder.decode (f.rest.take size) with
  | mk result d' =>
      cases result with
      | complete length i =>
          have hone : decodeOne model (pending ++ f.rest) = .complete length i := by
            rw [hcode, decodeOne]
            rw [hprogress.decode_eq] at hdecode
            rw [Decoder.decode_append_of_complete hdecode]
          have hlength := length_of_offer_complete hdecode
          have hdrop : (pending ++ f.rest).drop length = f.rest.drop (length - f.carried) := by
            rw [hprogress.consumed_eq] at hlength
            rw [List.drop_append, List.drop_eq_nil_of_le (by omega), List.nil_append, hcarried]
          rw [offer_of_complete hdecode]
          refine ⟨[], ?_, rfl, ?_⟩
          · rw [hprogress.decode_complete hdecode]
            exact .new model
          · rw [hall, decodeAll_of_complete hone, hdrop, List.append_assoc]
            rfl
      | needMore atLeast =>
          rw [offer_of_needMore hdecode]
          refine ⟨pending ++ f.rest.take size, hprogress.decode_needMore hdecode, ?_, ?_⟩
          · rw [hcarried, List.length_append]
          · have hdrop : f.rest.drop (f.rest.take size).length = f.rest.drop size := by
              rw [List.length_take, List.drop_eq_drop_iff]
              omega
            rw [hdrop, ← hcode, hall]

theorem length_rest_offer_lt {f : Feeding} (hcarried : f.carried = f.decoder.consumed)
    (hrest : f.rest ≠ []) {size : Nat} (hsize : 0 < size) :
    (f.offer size).rest.length < f.rest.length := by
  have hpos := List.length_pos_iff.mpr hrest
  cases hdecode : f.decoder.decode (f.rest.take size) with
  | mk result d' =>
      cases result with
      | complete length i =>
          have hlength := length_of_offer_complete hdecode
          rw [offer_of_complete hdecode, List.length_drop]
          omega
      | needMore atLeast =>
          rw [offer_of_needMore hdecode, List.length_drop, List.length_take]
          omega

theorem Follows.carried_eq {model : Model} {code : List UInt8} {f : Feeding}
    (hf : f.Follows model code) : f.carried = f.decoder.consumed := by
  obtain ⟨pending, hprogress, hcarried, -⟩ := hf
  rw [hcarried, hprogress.consumed_eq]

theorem Follows.run {model : Model} {code : List UInt8} {f : Feeding} (hf : f.Follows model code)
    (sizes : Nat → ℕ+) (calls : Nat) : (f.run sizes calls).Follows model code := by
  induction calls with
  | zero => exact hf
  | succ calls ih =>
      rw [Feeding.run]
      split
      · exact ih
      · exact ih.offer _

/-- Each call takes a byte from what is left, so the calls come to an end. -/
theorem length_rest_run_le {model : Model} {code : List UInt8} {f : Feeding}
    (hf : f.Follows model code) (sizes : Nat → ℕ+) (calls : Nat) :
    (f.run sizes calls).rest.length ≤ f.rest.length - calls := by
  induction calls with
  | zero => exact Nat.le_refl _
  | succ calls ih =>
      have hprevious := hf.run sizes calls
      rw [run]
      split
      · next hnil =>
          rw [hnil]
          exact Nat.zero_le _
      · next hne =>
          have hlt := length_rest_offer_lt hprevious.carried_eq hne (PNat.pos (sizes calls))
          omega

/-- `Decoder.stream` makes these calls. -/
theorem stream_eq_append_run (model : Model) (code : List UInt8) (sizes : Nat → ℕ+)
    (calls : Nat) :
    let f := (start model code).run sizes calls
    (Decoder.new model).stream (fun k => sizes k) 0 code =
      (f.instructions ++ (f.decoder.stream (fun k => sizes k) calls f.rest).1,
        (f.decoder.stream (fun k => sizes k) calls f.rest).2) := by
  induction calls with
  | zero => rfl
  | succ calls ih =>
      have hfollows := (follows_start model code).run sizes calls
      have hsize : max 1 (sizes calls : Nat) = sizes calls :=
        Nat.max_eq_right (PNat.pos (sizes calls))
      dsimp only at ih ⊢
      rw [ih, run]
      split
      · next hnil => rw [hnil, Decoder.stream_nil, Decoder.stream_nil]
      · next hne =>
          generalize hf : (start model code).run sizes calls = f at hne hfollows
          cases hdecode : f.decoder.decode (f.rest.take (sizes calls)) with
          | mk result d' =>
              cases result with
              | complete length i =>
                  rw [offer_of_complete hdecode,
                    Decoder.stream_of_complete hne (hsize.symm ▸ hdecode), hfollows.carried_eq]
                  simp
              | needMore atLeast =>
                  rw [offer_of_needMore hdecode,
                    Decoder.stream_of_needMore hne (hsize.symm ▸ hdecode), hsize]

end Feeding

theorem sum_length_decodeAll (model : Model) (code : List UInt8) :
    ((decodeAll model code).1.map (·.length)).sum + (decodeAll model code).2.length =
      code.length := by
  induction hn : code.length using Nat.strongRecOn generalizing code with
  | ind n ih =>
      cases hone : decodeOne model code with
      | complete length i =>
          have hlength := length_of_decodeOne_complete hone
          have hrest := ih (code.length - length) (by omega) (code.drop length) List.length_drop
          rw [decodeAll_of_complete hone, List.map_cons, List.sum_cons]
          dsimp only
          omega
      | needMore atLeast =>
          rw [decodeAll_of_needMore hone, List.map_nil, List.sum_nil, Nat.zero_add, hn]

/-- What is left when the code ends may be put in front of more code. -/
theorem decodeAll_append (model : Model) (a b : List UInt8) :
    decodeAll model (a ++ b) =
      ((decodeAll model a).1 ++ (decodeAll model ((decodeAll model a).2 ++ b)).1,
        (decodeAll model ((decodeAll model a).2 ++ b)).2) := by
  induction hn : a.length using Nat.strongRecOn generalizing a with
  | ind n ih =>
      cases hone : decodeOne model a with
      | complete length i =>
          have hlength := length_of_decodeOne_complete hone
          have hwhole : decodeOne model (a ++ b) = .complete length i := by
            rw [decodeOne, Decoder.decode_append_of_complete (Prod.ext hone rfl)]
          have hrest := ih (a.length - length) (by omega) (a.drop length) List.length_drop
          rw [decodeAll_of_complete hone, decodeAll_of_complete hwhole,
            List.drop_append_of_le_length hlength.2, hrest]
          rfl
      | needMore atLeast => rw [decodeAll_of_needMore hone, List.nil_append]

theorem snd_decodeAll (model : Model) (code : List UInt8) :
    (decodeAll model code).2 = code.drop ((decodeAll model code).1.map (·.length)).sum := by
  induction hn : code.length using Nat.strongRecOn generalizing code with
  | ind n ih =>
      cases hone : decodeOne model code with
      | complete length i =>
          have hlength := length_of_decodeOne_complete hone
          have hrest := ih (code.length - length) (by omega) (code.drop length) List.length_drop
          rw [decodeAll_of_complete hone, hrest, List.drop_drop, List.map_cons, List.sum_cons]
      | needMore atLeast =>
          rw [decodeAll_of_needMore hone, List.map_nil, List.sum_nil, List.drop_zero]

/-- After some instructions it goes on as if the code began there. -/
theorem decodeAll_drop (model : Model) (code : List UInt8) (k : Nat) :
    decodeAll model (code.drop (((decodeAll model code).1.take k).map (·.length)).sum) =
      ((decodeAll model code).1.drop k, (decodeAll model code).2) := by
  induction k generalizing code with
  | zero => rfl
  | succ k ih =>
      cases hone : decodeOne model code with
      | complete length i =>
          rw [decodeAll_of_complete hone, List.take_succ_cons, List.map_cons, List.sum_cons,
            ← List.drop_drop, ih, List.drop_succ_cons]
      | needMore atLeast =>
          rw [decodeAll_of_needMore hone]
          exact decodeAll_of_needMore hone

/-- As many calls as there are bytes offer all of the code, and find what `decodeAll` does; the
decoder has then taken in what is left. -/
theorem Feeding.exists_pending (model : Model) (code : List UInt8) (sizes : Nat → ℕ+) :
    let last := (Feeding.start model code).run sizes code.length
    last.rest = [] ∧ last.instructions = (decodeAll model code).1 ∧
      last.carried = (decodeAll model code).2.length ∧
      last.decoder.InProgress model (decodeAll model code).2 := by
  intro last
  have hstart := Feeding.follows_start model code
  have hrest : last.rest = [] := by
    have hlength := Feeding.length_rest_run_le hstart sizes code.length
    rw [Feeding.start, Nat.sub_self] at hlength
    exact List.eq_nil_of_length_eq_zero (Nat.le_zero.mp hlength)
  obtain ⟨taken, hprogress, hcarried, hall⟩ := hstart.run sizes code.length
  obtain ⟨atLeast, hone⟩ := hprogress.decodeOne_eq
  have hdecodeAll : decodeAll model code = (last.instructions, taken) := by
    rw [hall, hrest, List.append_nil, decodeAll_of_needMore hone, List.append_nil]
  rw [hdecodeAll]
  exact ⟨hrest, rfl, hcarried, hprogress⟩

/-- However the code is cut, the decoder finds the instructions that are found by starting anew at
each of them. As many calls as there are bytes, each of a positive size, offer all of the code; then
the instructions and the number of bytes without an answer are those of `decodeAll`, which knows
nothing of the cuts. So every byte is accounted for, and behind each instruction, legal or not, it
goes on as if the code began there. -/
theorem stream_eq_decodeAll (model : Model) (code : List UInt8) (sizes : Nat → ℕ+) :
    let last := (Feeding.start model code).run sizes code.length
    let instructions := (decodeAll model code).1
    let pending := (decodeAll model code).2
    last.rest = [] ∧ last.instructions = instructions ∧ last.carried = pending.length ∧
    (Decoder.new model).stream (fun k => sizes k) 0 code = (instructions, last.decoder) ∧
    last.decoder = ((Decoder.new model).decode pending).2 ∧
    (instructions.map (·.length)).sum + pending.length = code.length ∧
    ∀ k, decodeAll model (code.drop ((instructions.take k).map (·.length)).sum) =
      (instructions.drop k, pending) := by
  intro last instructions pending
  obtain ⟨hrest, hinstructions, hcarried, hprogress⟩ := Feeding.exists_pending model code sizes
  have hstream := Feeding.stream_eq_append_run model code sizes code.length
  dsimp only at hstream
  rw [hrest, Decoder.stream_nil, List.append_nil, hinstructions] at hstream
  obtain ⟨_, hpending⟩ := hprogress
  refine ⟨hrest, hinstructions, hcarried, hstream, ?_, sum_length_decodeAll model code,
    decodeAll_drop model code⟩
  rw [hpending]

end Iapx86
