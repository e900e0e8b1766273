import Iapx86.Decoder.Progress
import Iapx86.Proofs.Phases

/-!
# Sessions with one decoder

A decoder is used for a long time: it is offered bytes again and again, and it may be told to drop
the instruction in progress. `Decoder.after` is the decoder that such a list of calls leads to, so
`(new model).after calls` ranges over the decoders that occur at all.

All that a session leaves behind is the bytes of the instruction in progress. `InProgress model
pending d` says that `d` has taken in exactly the bytes `pending` of an instruction that is not
complete yet. Every session ends so (`InProgress.after`), with the bytes that `Decoder.held` gathers
along the calls, and offering bytes in that situation is offering them behind `pending` to a new
decoder (`InProgress.decode_eq`).
-/

namespace Iapx86

/-- What the owner of a decoder can do with it. -/
inductive Call where
  | decode (bytes : List UInt8)
  | reset
  deriving DecidableEq, Repr

namespace Decoder

/-- The decoder after one call. -/
def call (d : Decoder) : Call → Decoder
  | .decode bytes => (d.decode bytes).2
  | .reset => d.reset

/-- The decoder after a list of calls. -/
def after (d : Decoder) (calls : List Call) : Decoder := calls.foldl call d

@[simp] theorem model_decode (d : Decoder) (bytes : List UInt8) :
    (d.decode bytes).2.model = d.model := by
  induction bytes generalizing d with
  | nil => rfl
  | cons byte bytes ih =>
      rw [decode_cons]
      cases hstep : d.step byte with
      | complete length i => rfl
      | pending next =>
          exact (ih next).trans (step_eq_pending hstep).1

theorem eq_new_of_decode_complete {d d' : Decoder} {bytes : List UInt8} {length : Nat}
    {i : Instruction} (h : d.decode bytes = (.complete length i, d')) : d' = new d.model := by
  induction bytes generalizing d with
  | nil => simp at h
  | cons byte bytes ih =>
      rw [decode_cons] at h
      cases hstep : d.step byte with
      | complete length' i' =>
          rw [hstep] at h
          exact (congrArg Prod.snd h).symm
      | pending next =>
          rw [hstep] at h
          rw [ih h, (step_eq_pending hstep).1]

/-- Bytes behind a complete instruction are left alone. -/
theorem decode_append_of_complete {d d' : Decoder} {a : List UInt8} {length : Nat}
    {i : Instruction} (h : d.decode a = (.complete length i, d')) (b : List UInt8) :
    d.decode (a ++ b) = (.complete length i, d') := by
  induction a generalizing d with
  | nil => simp at h
  | cons byte a ih =>
      rw [decode_cons] at h
      rw [List.cons_append, decode_cons]
      cases hstep : d.step byte with
      | complete length' i' =>
          rw [hstep] at h
          exact h
      | pending next =>
          rw [hstep] at h
          exact ih h

/-- While the instruction is in progress, it does not matter where the bytes are cut. -/
theorem decode_append_of_needMore {d d' : Decoder} {a : List UInt8} {atLeast : Nat}
    (h : d.decode a = (.needMore atLeast, d')) (b : List UInt8) :
    d.decode (a ++ b) = d'.decode b := by
  induction a generalizing d with
  | nil =>
      simp only [decode_nil, Prod.mk.injEq] at h
      rw [List.nil_append, h.2]
  | cons byte a ih =>
      rw [decode_cons] at h
      rw [List.cons_append, decode_cons]
      cases hstep : d.step byte with
      | complete length i =>
          rw [hstep] at h
          simp at h
      | pending next =>
          rw [hstep] at h
          exact ih h

/-- The decoder has taken in just these bytes since it was new, and they end within an
instruction. -/
def InProgress (model : Model) (pending : List UInt8) (d : Decoder) : Prop :=
  ∃ atLeast, (new model).decode pending = (.needMore atLeast, d)

namespace InProgress

variable {model : Model} {pending : List UInt8} {d : Decoder}

theorem new (model : Model) : InProgress model [] (new model) := ⟨_, decode_nil _⟩

/-- Going on is starting anew with the pending bytes in front. -/
theorem decode_eq (h : InProgress model pending d) (bytes : List UInt8) :
    d.decode bytes = (Decoder.new model).decode (pending ++ bytes) := by
  obtain ⟨atLeast, hpending⟩ := h
  exact (decode_append_of_needMore hpending bytes).symm

theorem consumed_eq (h : InProgress model pending d) : d.consumed = pending.length := by
  obtain ⟨atLeast, hpending⟩ := h
  rw [consumed_of_decode_needMore hpending]
  exact Nat.zero_add _

theorem model_eq (h : InProgress model pending d) : d.model = model := by
  obtain ⟨atLeast, hpending⟩ := h
  have hmodel := (Decoder.new model).model_decode pending
  rwa [hpending] at hmodel

theorem decodeOne_eq (h : InProgress model pending d) :
    ∃ atLeast, decodeOne model pending = .needMore atLeast := by
  obtain ⟨atLeast, hpending⟩ := h
  exact ⟨atLeast, congrArg Prod.fst hpending⟩

theorem decode_needMore {d' : Decoder} {bytes : List UInt8} {atLeast : Nat}
    (h : InProgress model pending d) (hdecode : d.decode bytes = (.needMore atLeast, d')) :
    InProgress model (pending ++ bytes) d' := by
  rw [h.decode_eq] at hdecode
  exact ⟨atLeast, hdecode⟩

theorem decode_complete {d' : Decoder} {bytes : List UInt8} {length : Nat} {i : Instruction}
    (h : InProgress model pending d) (hdecode : d.decode bytes = (.complete length i, d')) :
    d' = Decoder.new model := by
  rw [h.decode_eq] at hdecode
  exact eq_new_of_decode_complete hdecode

end InProgress

/-- The bytes of the instruction in progress after one call, when there are these before. -/
def hold (d : Decoder) (held : List UInt8) : Call → List UInt8
  | .decode bytes => if (d.decode bytes).1.isComplete then [] else held ++ bytes
  | .reset => []

/-- The bytes of the instruction in progress after a list of calls, when there are these before. -/
def held (d : Decoder) (before : List UInt8) : List Call → List UInt8
  | [] => before
  | c :: calls => (d.call c).held (d.hold before c) calls

theorem InProgress.call {model : Model} {pending : List UInt8} {d : Decoder}
    (h : InProgress model pending d) (c : Call) :
    InProgress model (d.hold pending c) (d.call c) := by
  cases c with
  | reset =>
      rw [Decoder.call, reset, h.model_eq]
      exact .new model
  | decode bytes =>
      rw [Decoder.call, hold]
      cases hdecode : d.decode bytes with
      | mk result next =>
          cases result with
          | complete length i =>
              rw [h.decode_complete hdecode]
              exact .new model
          | needMore atLeast => exact h.decode_needMore hdecode

/-- Whatever is done with a decoder, what it has taken in and not answered is the beginning of an
instruction. -/
theorem InProgress.after {model : Model} {pending : List UInt8} {d : Decoder}
    (h : InProgress model pending d) (calls : List Call) :
    InProgress model (d.held pending calls) (d.after calls) := by
  induction calls generalizing d pending with
  | nil => exact h
  | cons c calls ih => exact ih (h.call c)

theorem exists_inProgress_after (model : Model) (calls : List Call) :
    ∃ pending, InProgress model pending ((new model).after calls) :=
  ⟨_, (InProgress.new model).after calls⟩

/-- A decoder can be offered its bytes in pieces, whatever it was used for before. A complete
instruction is the same with more bytes behind it, and leaves the same decoder. If the bytes end
within an instruction, the next call gives what one call with both pieces gives, the answer and the
decoder alike. Nor does it matter how the decoder got where it is: it answers as a new one does that
is offered the bytes of the instruction in progress again. -/
theorem session_decode_append (model : Model) (calls : List Call) (a b : List UInt8) :
    let d := (new model).after calls
    (d.decode (a ++ b) =
      match d.decode a with
      | (.complete length i, d') => (.complete length i, d')
      | (.needMore _, d') => d'.decode b) ∧
    ∃ pending, d.consumed = pending.length ∧
      ∀ bytes, d.decode bytes = (new model).decode (pending ++ bytes) := by
  intro d
  constructor
  · cases hdecode : d.decode a with
    | mk result d' =>
        cases result with
        | complete length i => exact decode_append_of_complete hdecode b
        | needMore atLeast => exact decode_append_of_needMore hdecode b
  · obtain ⟨pending, hpending⟩ := exists_inProgress_after model calls
    exact ⟨pending, hpending.consumed_eq, hpending.decode_eq⟩

end Decoder

end Iapx86
