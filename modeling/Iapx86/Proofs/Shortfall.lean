import Iapx86.Proofs.Extent
import Iapx86.Proofs.Settled

/-!
# How many bytes are missing

A decoder in the middle of an instruction says how many bytes it needs at least
(`Decoder.shortfall`). A byte brings this down by one at most (`Decoder.shortfall_le_step`), so
fewer bytes never complete the instruction (`Decoder.needMore_of_lt`). Before the trailing bytes the
number is one, which may be too few; among them it is the number of those still to come, and as they
are taken in whatever they are, that many complete the instruction
(`Decoder.IsSound.decode_of_two_le`).
-/

namespace Iapx86

namespace Decoder

variable {d d' : Decoder} {bytes : List UInt8}

/-! ## The number that is answered -/

theorem shortfall_of_decode_needMore {atLeast : Nat}
    (h : d.decode bytes = (.needMore atLeast, d')) : d'.shortfall = atLeast := by
  induction bytes generalizing d with
  | nil =>
      cases h
      rfl
  | cons byte bytes ih =>
      rw [decode_cons] at h
      cases hstep : d.step byte with
      | complete length i =>
          rw [hstep] at h
          cases h
      | pending next =>
          rw [hstep] at h
          exact ih h

/-- In the middle of an instruction a byte is missing at least. -/
theorem IsSound.shortfall_pos (h : d.IsSound) (hconsumed : d.consumed ≠ 0) : 0 < d.shortfall := by
  have hsound := h.phase
  unfold shortfall
  cases hphase : d.phase with
  | trailing body layout received register =>
      rw [hphase] at hsound
      exact Nat.sub_pos_of_lt hsound.2.2.1
  | opcode | secondary | modRm form width | scaleIndexBase body layout =>
      dsimp only
      rw [if_neg hconsumed]
      exact Nat.one_pos

theorem InProgress.decodeOne_pending {model : Model} {pending : List UInt8}
    (h : InProgress model pending d) : decodeOne model pending = .needMore d.shortfall := by
  obtain ⟨atLeast, hpending⟩ := h
  rw [decodeOne, hpending, shortfall_of_decode_needMore hpending]

theorem InProgress.shortfall_eq_zero_iff {model : Model} {pending : List UInt8}
    (h : InProgress model pending d) : d.shortfall = 0 ↔ d.isIdle = true := by
  rw [h.isIdle_iff]
  constructor
  · intro hzero
    by_contra hne
    have hconsumed : d.consumed ≠ 0 := by
      rw [h.consumed_eq]
      exact fun hnil => hne (List.eq_nil_of_length_eq_zero hnil)
    exact absurd hzero (h.isSound.shortfall_pos hconsumed).ne'
  · rintro rfl
    rw [h.eq_new]
    rfl

/-! ## Fewer bytes -/

theorem shortfall_of_phase_ne_trailing
    (h : ∀ body layout received register, d.phase ≠ .trailing body layout received register) :
    d.shortfall ≤ 1 := by
  unfold shortfall
  split
  · next hphase => exact absurd hphase (h _ _ _ _)
  · split <;> omega

end Decoder

/-- What is missing after a step. -/
def StepResult.shortfall : StepResult → Nat
  | complete _ _ => 0
  | pending d => d.shortfall

namespace Decoder

variable {d d' : Decoder} {bytes : List UInt8}

theorem shortfall_le_stepTrailing {body : Body} {layout : TrailingLayout} {received : Nat}
    {register : TrailingRegister} (byte : UInt8) :
    layout.size - received ≤ (d.stepTrailing body layout received register byte).shortfall + 1 := by
  unfold stepTrailing
  dsimp only
  split
  · simp only [enter, StepResult.shortfall, shortfall]
    omega
  · omega

/-- A byte brings the number down by one at most. -/
theorem shortfall_le_step (d : Decoder) (byte : UInt8) :
    d.shortfall ≤ (d.step byte).shortfall + 1 := by
  cases hphase : d.phase with
  | trailing body layout received register =>
      rw [shortfall, step, hphase]
      exact shortfall_le_stepTrailing byte
  | opcode | secondary | modRm form width | scaleIndexBase body layout =>
      have hone : d.shortfall ≤ 1 := shortfall_of_phase_ne_trailing (by simp [hphase])
      omega

/-- Fewer bytes leave the instruction in progress, and the number is no smaller than it was by more
than these. -/
theorem needMore_of_lt (h : bytes.length < d.shortfall) :
    ∃ atLeast, (d.decode bytes).1 = .needMore atLeast ∧ d.shortfall - bytes.length ≤ atLeast := by
  induction bytes generalizing d with
  | nil => exact ⟨d.shortfall, rfl, Nat.le_refl _⟩
  | cons byte bytes ih =>
      have hnext := d.shortfall_le_step byte
      rw [List.length_cons] at h ⊢
      rw [decode_cons_fst]
      cases hstep : d.step byte with
      | complete length i =>
          rw [hstep, StepResult.shortfall] at hnext
          omega
      | pending next =>
          rw [hstep, StepResult.shortfall] at hnext
          obtain ⟨atLeast, hdecode, hle⟩ := ih (d := next) (by omega)
          exact ⟨atLeast, hdecode, by omega⟩

/-! ## Two bytes and more -/

/-- Where two bytes are missing or more, these are trailing bytes: fewer leave just the rest
missing, and as many complete the instruction. -/
theorem IsSound.decode_of_two_le (h : d.IsSound) (htwo : 2 ≤ d.shortfall) (bytes : List UInt8) :
    (bytes.length < d.shortfall →
      (d.decode bytes).1 = .needMore (d.shortfall - bytes.length)) ∧
    (d.shortfall ≤ bytes.length →
      ∃ i, (d.decode bytes).1 = .complete (d.consumed + d.shortfall) i ∧
        i.isUndefined = false) := by
  cases hphase : d.phase with
  | trailing body layout received register =>
      have hsound := h.phase
      rw [hphase] at hsound
      obtain ⟨hbody, -, hreceived, -⟩ := hsound
      have hshortfall : d.shortfall = layout.size - received := by
        rw [shortfall, hphase]
      obtain ⟨missing, hmissing⟩ : ∃ missing, d.shortfall = missing + 1 :=
        ⟨d.shortfall - 1, by omega⟩
      have hsize : layout.size = received + missing + 1 := by omega
      rw [decode_trailing hphase hsize, hmissing]
      exact ⟨fun hshort => if_pos hshort, fun hlong =>
        ⟨_, if_neg (by omega), Instruction.isUndefined_withTrailing _ hbody layout _⟩⟩
  | opcode | secondary | modRm form width | scaleIndexBase body layout =>
      have hone : d.shortfall ≤ 1 := shortfall_of_phase_ne_trailing (by simp [hphase])
      omega

/-- Whatever a decoder was used for, the number of missing bytes that it answers can be relied upon.
There are none if and only if no instruction is in progress. Fewer bytes never complete the
instruction, and what is missing then is the rest at least. From two on the number is exact: any
that many bytes complete the instruction, which is then that much longer than the bytes taken in so
far, and after fewer just the rest is missing. -/
theorem session_shortfall (model : Model) (calls : List Call) (bytes : List UInt8) (n : Nat)
    (d : Decoder) (h : ((new model).after calls).decode bytes = (.needMore n, d)) :
    let c := (new model).absorbed 0 (calls ++ [.decode bytes])
    (n = 0 ↔ d.isIdle = true) ∧
    (∀ more, more.length < n →
      ∃ n', (d.decode more).1 = .needMore n' ∧ n - more.length ≤ n') ∧
    (2 ≤ n → ∀ more,
      (n ≤ more.length →
        ∃ i, (d.decode more).1 = .complete (c + n) i ∧ i.isUndefined = false) ∧
      (more.length < n → (d.decode more).1 = .needMore (n - more.length))) := by
  intro c
  obtain ⟨pending, hpending, hc⟩ := (InProgress.new model).absorbed (calls ++ [.decode bytes])
  have hafter : (new model).after (calls ++ [.decode bytes]) = d := by
    rw [after, List.foldl_append]
    exact congrArg Prod.snd h
  rw [hafter] at hpending
  have hcount : d.consumed = c := hpending.consumed_eq.trans hc.symm
  obtain rfl := shortfall_of_decode_needMore h
  refine ⟨hpending.shortfall_eq_zero_iff, fun more => needMore_of_lt, fun htwo more => ?_⟩
  obtain ⟨hshort, hlong⟩ := hpending.isSound.decode_of_two_le htwo more
  rw [hcount] at hlong
  exact ⟨hlong, hshort⟩

/-- An addressing byte leaves a displacement and an operand to come, a byte of which are there. -/
theorem session_shortfall_three :
    let calls := [.decode [0x90], .decode [0x26], .decode [0xC7]]
    ∃ d, ((new .i8086).after calls).decode [0x06, 0x34] = (.needMore 3, d) ∧
      (new .i8086).absorbed 0 (calls ++ [.decode [0x06, 0x34]]) = 4 ∧ d.isIdle = false ∧
      (∃ i, (d.decode [0x12, 0x78, 0x56, 0x90]).1 = .complete 7 i ∧ i.isUndefined = false) ∧
      (d.decode [0x12]).1 = .needMore 2 := by
  intro calls
  have hthree : (((new .i8086).after calls).decode [0x06, 0x34]).1 = .needMore 3 := by
    decide +kernel
  have hcount : (new .i8086).absorbed 0 (calls ++ [.decode [0x06, 0x34]]) = 4 := by
    decide +kernel
  cases hdecode : ((new .i8086).after calls).decode [0x06, 0x34] with
  | mk result d =>
      obtain rfl : result = .needMore 3 := by
        rw [hdecode] at hthree
        exact hthree
      obtain ⟨hidle, -, hexact⟩ := session_shortfall .i8086 calls [0x06, 0x34] 3 d hdecode
      rw [hcount] at hexact
      refine ⟨d, rfl, hcount, ?_, ?_, ?_⟩
      · rw [← Bool.not_eq_true, ← hidle]
        decide
      · exact (hexact (by decide) [0x12, 0x78, 0x56, 0x90]).1 (by decide)
      · exact (hexact (by decide) [0x12]).2 (by decide)

end Decoder

end Iapx86
