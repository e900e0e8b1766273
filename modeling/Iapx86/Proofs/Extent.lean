import Iapx86.Proofs.Gating
import Iapx86.Proofs.Header
import Iapx86.Proofs.Session

/-!
# How long an instruction can get

A decoder that is in the middle of an instruction has at most so many bytes of it: each phase bounds
the bytes that lead there, and what is still missing (`Phase.IsSound`). The bound is kept from byte
to byte (`Decoder.IsSound.of_step`), so it holds of every decoder in use.

The owner of a decoder can count along: `Decoder.absorbed` is the number of bytes that calls have
taken in since an instruction was last complete or dropped. This is the number that the decoder has
(`Decoder.InProgress.absorbed`), and a decoder that has none is as good as new.
-/

namespace Iapx86

open Opcode

/-- The length of the longest instruction: the opcode in the last place for one, the addressing
byte, the byte of scale, index and base where the model has one, and two words. -/
def Model.longestInstruction (model : Model) : Nat := if .i80386 ≤ model then 21 else 20

theorem Model.le_longestInstruction (model : Model) : 20 ≤ model.longestInstruction := by
  cases model <;> decide

/-! ## The phases -/

/-- What is known in a phase that is reached with so many bytes of an instruction. -/
def Phase.IsSound (model : Model) (consumed : Nat) : Phase → Prop
  | opcode => consumed < maxLength
  | secondary => consumed ≤ maxLength ∧ IsKnown model 0x0F
  | modRm form width =>
      form.isDefined ∧ ∀ reg < 8, form.operandField width reg ≠ .farPointer ∧
        consumed + (form.operandField width reg).size ≤ maxLength + 2
  | scaleIndexBase body layout =>
      .i80386 ≤ model ∧ body.operation ≠ .undefined ∧ layout.IsProper ∧
        consumed + layout.size ≤ maxLength + 5
  | trailing body layout received _ =>
      body.operation ≠ .undefined ∧ layout.IsProper ∧ received < layout.size ∧
        consumed + (layout.size - received) ≤ model.longestInstruction

theorem TrailingLayout.IsProper.size_le {layout : TrailingLayout} (h : layout.IsProper) :
    layout.size ≤ 4 := by
  have hdisplacement := layout.displacementSize_le
  have hoperand := layout.operandSize_le
  rw [size_eq h]
  omega

theorem Opcode.operandSize_le (opcode : Opcode) (reg : Option Nat) :
    opcode.operandSize reg ≤ 2 := by
  cases opcode with
  | primary byte =>
      rw [operandSize]
      split
      · exact Nat.le_succ 1
      · split
        · exact Nat.le_refl 2
        · exact Nat.zero_le 2
  | secondary byte => exact Nat.zero_le 2

theorem Opcode.isPrefix_of_shape {model : Model} {byte : UInt8} {p : PrefixByte}
    (hknown : IsKnown model byte) (hshape : (OpcodeMap.primary byte).shape = .prefixByte p) :
    IsPrefix model byte := by
  have hmodifier := isSome_modifier?_iff byte
  rw [modifier?, hshape] at hmodifier
  exact ⟨hmodifier.mp rfl, hknown.2⟩

theorem DisplacementField.size_le (field : DisplacementField) : field.size ≤ 2 := by
  cases field <;> decide

theorem ModRm.size_of_resolve? {model : Model} {form : ModRmForm} {width : Width} {m : ModRm}
    {body : Body} {layout : TrailingLayout}
    (h : m.resolve? model form width = some (body, layout)) :
    layout.size ≤ 2 + (form.operandField width m.reg).size := by
  obtain ⟨-, hoperand, -, -⟩ := ModRm.fields_of_resolve? h
  have hdisplacement := layout.displacement.size_le
  rw [TrailingLayout.size, hoperand]
  omega

/-- The next phase is sound with one byte more. -/
theorem Phase.Leads.isSound {model : Model} {phase phase' : Phase} {byte : UInt8} {consumed : Nat}
    (h : phase.Leads model byte phase') (hphase : phase.IsSound model consumed)
    (hpass : phase = .opcode → ¬ IsPrefix model byte)
    (hwide : ∀ body layout, phase' = .scaleIndexBase body layout → .i80386 ≤ model) :
    phase'.IsSound model (consumed + 1) := by
  have hlongest := model.le_longestInstruction
  have hprimary := (Opcode.primary byte).agreesWith_shape
  have hsecondary := (Opcode.secondary byte).agreesWith_shape
  have hdefined := isDefined_primary byte
  have hdefined' := isDefined_secondary byte
  cases h with
  | pass hknown hshape => exact absurd (isPrefix_of_shape hknown hshape) (hpass rfl)
  | escape hknown hshape => exact ⟨hphase, (shape_eq_escape_iff byte).mp hshape ▸ hknown⟩
  | @fixed _ body layout hknown hshape hsize =>
      rw [hshape] at hdefined
      rw [Opcode.shape, hshape] at hprimary
      have hproper := hprimary.2.1
      have hfour := hproper.size_le
      have hroom : consumed < maxLength := hphase
      simp only [maxLength] at hroom
      exact ⟨of_decide_eq_true hdefined, hproper, by omega, by omega⟩
  | @addressed _ form width hknown hshape =>
      rw [hshape] at hdefined
      rw [Opcode.shape, hshape] at hprimary
      refine ⟨hdefined, fun reg hreg => ?_⟩
      obtain ⟨hfar, hsize⟩ := hprimary.2.2 reg hreg
      have htwo := (Opcode.primary byte).operandSize_le (some reg)
      have hroom : consumed < maxLength := hphase
      exact ⟨hfar, by omega⟩
  | @secondaryFixed _ body layout hshape hsize =>
      rw [hshape] at hdefined'
      rw [Opcode.shape, hshape] at hsecondary
      have hproper := hsecondary.2.1
      have hfour := hproper.size_le
      have hroom : consumed ≤ maxLength := hphase.1
      simp only [maxLength] at hroom
      exact ⟨of_decide_eq_true hdefined', hproper, by omega, by omega⟩
  | @secondaryAddressed _ form width hshape =>
      rw [hshape] at hdefined'
      rw [Opcode.shape, hshape] at hsecondary
      refine ⟨hdefined', fun reg hreg => ?_⟩
      obtain ⟨hfar, hsize⟩ := hsecondary.2.2 reg hreg
      have hroom : consumed ≤ maxLength := hphase.1
      rw [show (Opcode.secondary byte).operandSize (some reg) = 0 from rfl] at hsize
      exact ⟨hfar, by omega⟩
  | @scaled _ form width body layout hresolve =>
      obtain ⟨hform, hreg⟩ := hphase
      obtain ⟨hfar, hroom⟩ := hreg _ (ModRm.reg_ofByte_lt byte)
      have hsize := ModRm.size_of_resolve? hresolve
      have hoperand := (ModRm.fields_of_resolve? hresolve).2.1
      exact ⟨hwide body layout rfl, ModRm.operation_of_resolve? hform hresolve,
        fun h => absurd (hoperand.symm.trans h) hfar, by omega⟩
  | @resolved _ form width body layout hresolve hsize =>
      obtain ⟨hform, hreg⟩ := hphase
      obtain ⟨hfar, hroom⟩ := hreg _ (ModRm.reg_ofByte_lt byte)
      have hfields := ModRm.size_of_resolve? hresolve
      have hoperand := (ModRm.fields_of_resolve? hresolve).2.1
      simp only [maxLength] at hroom
      exact ⟨ModRm.operation_of_resolve? hform hresolve,
        fun h => absurd (hoperand.symm.trans h) hfar, by omega, by omega⟩
  | @skipped _ body layout hsize =>
      obtain ⟨hmodel, hbody, hproper, hroom⟩ := hphase
      have hlong : model.longestInstruction = 21 := if_pos hmodel
      simp only [maxLength] at hroom
      exact ⟨hbody, hproper, by omega, by omega⟩
  | @gathered _ body layout received register hmore =>
      obtain ⟨hbody, hproper, -, hroom⟩ := hphase
      exact ⟨hbody, hproper, hmore, by omega⟩

/-- In no phase are all bytes of the longest instruction there. -/
theorem Phase.IsSound.lt_longestInstruction {model : Model} {consumed : Nat} {phase : Phase}
    (h : phase.IsSound model consumed) : consumed < model.longestInstruction := by
  have hlongest := model.le_longestInstruction
  simp only [Phase.IsSound, maxLength] at h
  cases phase with
  | opcode | secondary =>
      simp only at h
      omega
  | modRm form width =>
      have hroom := (h.2 0 (by decide)).2
      omega
  | scaleIndexBase body layout =>
      obtain ⟨hmodel, -, -, hroom⟩ := h
      have hlong : model.longestInstruction = 21 := if_pos hmodel
      omega
  | trailing body layout received register =>
      obtain ⟨-, -, hreceived, hroom⟩ := h
      omega

/-! ## The bytes -/

/-- If the instruction goes on, nothing is added to what the bytes before the opcode ask for, and
only wide addresses lead to a byte of scale, index and base. -/
def StepResult.Proceeds (d : Decoder) : StepResult → Prop
  | complete _ _ => True
  | pending d' =>
      d'.prefixes = d.prefixes ∧ ∀ body layout, d'.phase = .scaleIndexBase body layout →
        d.prefixes.addressSize = .bits32

namespace Decoder

variable {d d' : Decoder} {byte : UInt8}

theorem proceeds_refuse : d.refuse.Proceeds d := trivial

theorem proceeds_enter {phase : Phase} (h : ∀ body layout, phase ≠ .scaleIndexBase body layout) :
    (d.enter phase).Proceeds d :=
  ⟨rfl, fun body layout hphase => absurd hphase (h body layout)⟩

theorem proceeds_awaitTrailing (body : Body) (layout : TrailingLayout) :
    (d.awaitTrailing body layout).Proceeds d := by
  unfold awaitTrailing
  split
  · trivial
  · exact proceeds_enter (fun _ _ => Phase.noConfusion)

theorem proceeds_stepOpcode (h : ¬ IsPrefix d.model byte) : (d.stepOpcode byte).Proceeds d := by
  by_cases hknown : IsKnown d.model byte
  · rcases stepOpcode_of_opcode hknown h with ⟨-, hstep, -⟩ | ⟨body, layout, hstep, -⟩ |
      ⟨form, width, hstep, -⟩
    · rw [hstep]
      exact proceeds_enter (fun _ _ => Phase.noConfusion)
    · rw [hstep]
      exact proceeds_awaitTrailing body layout
    · rw [hstep]
      exact proceeds_enter (fun _ _ => Phase.noConfusion)
  · rw [stepOpcode_of_not_isKnown hknown]
    exact proceeds_refuse

theorem proceeds_stepSecondary : (d.stepSecondary byte).Proceeds d := by
  unfold stepSecondary
  split
  · exact proceeds_refuse
  · cases (OpcodeMap.secondary byte).shape with
    | undefined | prefixByte p | escape => exact proceeds_refuse
    | fixed body layout => exact proceeds_awaitTrailing body layout
    | modRm form width => exact proceeds_enter (fun _ _ => Phase.noConfusion)

theorem proceeds_stepModRm (form : ModRmForm) (width : Width) :
    (d.stepModRm form width byte).Proceeds d := by
  unfold stepModRm
  dsimp only
  cases (ModRm.ofByte byte).resolve? d.model form width with
  | none => exact proceeds_refuse
  | some resolved =>
      dsimp only
      split
      · next hwide =>
          simp only [takesScaleIndexBase, Bool.and_eq_true, decide_eq_true_eq] at hwide
          exact ⟨rfl, fun _ _ _ => hwide.1.1⟩
      · exact proceeds_awaitTrailing _ _

theorem proceeds_step (h : d.phase = .opcode → ¬ IsPrefix d.model byte) :
    (d.step byte).Proceeds d := by
  unfold step
  cases hphase : d.phase with
  | opcode => exact proceeds_stepOpcode (h hphase)
  | secondary => exact proceeds_stepSecondary
  | modRm form width => exact proceeds_stepModRm form width
  | scaleIndexBase body layout => exact proceeds_awaitTrailing body layout
  | trailing body layout received register =>
      dsimp only
      unfold stepTrailing
      dsimp only
      split
      · exact proceeds_enter (fun _ _ => Phase.noConfusion)
      · trivial

/-- The phase is one that its bytes lead to, and wide addresses were asked for only where there are
any. -/
structure IsSound (d : Decoder) : Prop where
  phase : d.phase.IsSound d.model d.consumed
  wide : d.prefixes.addressSize = .bits32 → .i80386 ≤ d.model

theorem isSound_new (model : Model) : (new model).IsSound :=
  { phase := Nat.zero_lt_succ 14
    wide := nofun }

/-- A byte keeps the decoder sound. -/
theorem IsSound.of_step (h : d.IsSound) (hstep : d.step byte = .pending d') : d'.IsSound := by
  by_cases hpass : d.phase = .opcode ∧ IsPrefix d.model byte
  · obtain ⟨hphase, hbyte⟩ := hpass
    rw [step_of_isPrefix hphase hbyte] at hstep
    split at hstep
    · cases hstep
    · next hroom =>
        cases hstep
        have hfits : d.consumed + 1 < maxLength := Nat.lt_of_not_ge hroom
        refine { phase := ?_, wide := fun hwide => ?_ }
        · rw [passing, hphase]
          exact hfits
        · change (d.prefixes.modifiedBy byte).addressSize = .bits32 at hwide
          rw [Prefixes.modifiedBy_eq] at hwide
          dsimp only at hwide
          split at hwide
          · next hbits =>
              rw [hbits] at hbyte
              exact hbyte.2
          · exact h.wide hwide
  · have hbyte (hphase : d.phase = .opcode) : ¬ IsPrefix d.model byte :=
      fun hprefix => hpass ⟨hphase, hprefix⟩
    obtain ⟨hmodel, hleads⟩ := step_eq_pending hstep
    have hproceeds := proceeds_step hbyte
    have hconsumed := d.consumed_step byte
    rw [hstep] at hproceeds hconsumed
    obtain ⟨hprefixes, hscaled⟩ := hproceeds
    have hphase := hleads.isSound h.phase hbyte
      (fun body layout hphase => h.wide (hscaled body layout hphase))
    rw [← hconsumed] at hphase
    refine { phase := ?_, wide := fun hwide => ?_ }
    · rw [hmodel]
      exact hphase
    · rw [hmodel]
      rw [hprefixes] at hwide
      exact h.wide hwide

theorem IsSound.of_decode (h : d.IsSound) {bytes : List UInt8} {atLeast : Nat}
    (hdecode : d.decode bytes = (.needMore atLeast, d')) : d'.IsSound := by
  induction bytes generalizing d with
  | nil =>
      cases hdecode
      exact h
  | cons byte bytes ih =>
      rw [decode_cons] at hdecode
      cases hstep : d.step byte with
      | complete length i =>
          rw [hstep] at hdecode
          cases hdecode
      | pending next =>
          rw [hstep] at hdecode
          exact ih (h.of_step hstep) hdecode

theorem InProgress.isSound {model : Model} {pending : List UInt8}
    (h : InProgress model pending d) : d.IsSound := by
  obtain ⟨atLeast, hpending⟩ := h
  exact (isSound_new model).of_decode hpending

theorem InProgress.length_lt {model : Model} {pending : List UInt8}
    (h : InProgress model pending d) : pending.length < model.longestInstruction := by
  rw [← h.consumed_eq, ← h.model_eq]
  exact h.isSound.phase.lt_longestInstruction

/-! ## The calls -/

/-- The bytes that calls take in and do not answer with an instruction, when there are `count`
before. Each answer and each reset starts the count anew. -/
def absorbed (d : Decoder) (count : Nat) : List Call → Nat
  | [] => count
  | .reset :: calls => (d.call .reset).absorbed 0 calls
  | .decode bytes :: calls =>
      (d.call (.decode bytes)).absorbed
        (if (d.decode bytes).1.isComplete then 0 else count + d.takes bytes) calls

/-- The count follows the bytes that are held. -/
theorem absorbed_eq (d : Decoder) (before : List UInt8) (calls : List Call) :
    d.absorbed before.length calls = (d.held before calls).length := by
  induction calls generalizing d before with
  | nil => rfl
  | cons c calls ih =>
      rw [held, ← ih]
      cases c with
      | reset => rfl
      | decode bytes =>
          rw [absorbed, hold]
          cases hresult : (d.decode bytes).1 with
          | complete length i => rfl
          | needMore atLeast => simp [DecodeResult.isComplete, takes_of_needMore hresult]

/-- The owner's count is right: it is the number of bytes of the instruction in progress. -/
theorem InProgress.absorbed {model : Model} {pending : List UInt8} (h : InProgress model pending d)
    (calls : List Call) :
    ∃ pending', InProgress model pending' (d.after calls) ∧
      d.absorbed pending.length calls = pending'.length :=
  ⟨d.held pending calls, h.after calls, d.absorbed_eq pending calls⟩

theorem InProgress.eq_new {model : Model} (h : InProgress model [] d) : d = Decoder.new model := by
  obtain ⟨atLeast, hpending⟩ := h
  exact (congrArg Prod.snd hpending).symm

theorem InProgress.isIdle_iff {model : Model} {pending : List UInt8}
    (h : InProgress model pending d) : d.isIdle = true ↔ pending = [] := by
  constructor
  · intro hidle
    simp only [isIdle, Bool.and_eq_true, decide_eq_true_eq] at hidle
    rw [h.consumed_eq] at hidle
    exact List.eq_nil_of_length_eq_zero hidle.2
  · rintro rfl
    rw [h.eq_new]
    rfl

/-- As many bytes as the longest instruction has always complete one. -/
theorem isComplete_decodeOne {model : Model} {bytes : List UInt8}
    (h : model.longestInstruction ≤ bytes.length) : (decodeOne model bytes).isComplete = true := by
  cases hone : decodeOne model bytes with
  | complete length i => rfl
  | needMore atLeast =>
      have hprogress : InProgress model bytes ((Decoder.new model).decode bytes).2 :=
        ⟨atLeast, Prod.ext hone rfl⟩
      exact absurd hprogress.length_lt (Nat.not_lt.mpr h)

theorem InProgress.length_le {model : Model} {pending : List UInt8}
    (h : InProgress model pending d) : pending.length ≤ if .i80386 ≤ model then 20 else 19 := by
  have hlt : pending.length < if .i80386 ≤ model then 21 else 20 := h.length_lt
  split at hlt
  · next hwide =>
      rw [if_pos hwide]
      omega
  · next hnarrow =>
      rw [if_neg hnarrow]
      omega

/-- Whatever a decoder is used for, its owner knows what it holds by counting the bytes that were
taken in since an instruction was last complete or dropped. There are none if and only if the
decoder is idle, and then it is a new one. A call that answers with an instruction takes at least
one of its bytes, and the instruction is as long as these and those before together; a call that
does not takes them all. There are never as many as the longest instruction has, so that many bytes
always complete one. -/
theorem session_absorbed (model : Model) (calls : List Call) (bytes : List UInt8) :
    let d := (new model).after calls
    let c := (new model).absorbed 0 calls
    (d.isIdle = true ↔ c = 0) ∧ (d.isIdle = true ↔ d = new model) ∧ d.consumed = c ∧
    c ≤ (if .i80386 ≤ model then 20 else 19) ∧
    (match d.decode bytes with
    | (.complete length _, _) => ∃ u, 1 ≤ u ∧ u ≤ bytes.length ∧ length = c + u
    | (.needMore _, d') => d.takes bytes = bytes.length ∧ d'.consumed = c + bytes.length) ∧
    ((if .i80386 ≤ model then 21 else 20) ≤ bytes.length →
      (decodeOne model bytes).isComplete = true) := by
  intro d c
  obtain ⟨pending, hpending, hc⟩ := (InProgress.new model).absorbed calls
  have hcount : c = pending.length := hc
  have hconsumed : d.consumed = c := hpending.consumed_eq.trans hcount.symm
  have hnil : c = 0 ↔ pending = [] := by rw [hcount, List.length_eq_zero_iff]
  refine ⟨hpending.isIdle_iff.trans hnil.symm, ?_, hconsumed, ?_, ?_, ?_⟩
  · refine ⟨fun hidle => ?_, fun hnew => ?_⟩
    · have hempty := hpending.isIdle_iff.mp hidle
      rw [hempty] at hpending
      exact hpending.eq_new
    · rw [hnew]
      rfl
  · rw [hcount]
    exact hpending.length_le
  · cases hdecode : d.decode bytes with
    | mk result d' =>
        cases result with
        | complete length i =>
            have hlength := length_of_decode_complete (congrArg Prod.fst hdecode)
            exact ⟨length - c, by omega, by omega, by omega⟩
        | needMore atLeast =>
            refine ⟨takes_of_needMore (congrArg Prod.fst hdecode), ?_⟩
            rw [consumed_of_decode_needMore hdecode, hconsumed]
  · exact isComplete_decodeOne

/-- The longest instruction in progress, of which the last byte is missing. -/
theorem session_absorbed_longest :
    let calls := [.decode [0x90, 0xC3], .decode [0x26, 0x81], .reset,
      .decode (List.replicate 14 0x67), .decode [0x81, 0x84, 0x00], .decode [],
      .decode [0x34, 0x12, 0x78]]
    let d := (new .i80386).after calls
    (new .i80386).absorbed 0 calls = 20 ∧ d.isIdle = false ∧ d.consumed = 20 ∧
      (d.decode [0x56]).1.count = 21 ∧
      (decodeOne .i80386 (List.replicate 21 0x67)).isComplete = true := by
  intro calls d
  have hcount : (new .i80386).absorbed 0 calls = 20 := by decide +kernel
  obtain ⟨hidle, -, hconsumed, -, -, hcompletes⟩ :=
    session_absorbed .i80386 calls (List.replicate 21 0x67)
  rw [hcount] at hidle hconsumed
  refine ⟨hcount, ?_, hconsumed, by decide +kernel, hcompletes (by decide)⟩
  rw [← Bool.not_eq_true]
  exact fun h => absurd (hidle.mp h) (by decide)

end Decoder

end Iapx86
