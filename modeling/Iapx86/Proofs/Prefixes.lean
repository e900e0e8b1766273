import Iapx86.Decoder.Progress
import Iapx86.Proofs.Rejection
import Mathlib.Data.List.Induction

/-!
# Bytes before the opcode

What a run of them adds up to can be said without going through it (`Prefixes.ofRun`): of the
segments and of the kinds of repetition that it names the last one holds, and the bus is locked or
addresses are wide if there is such a byte anywhere.

To the instruction behind it a run matters only by the width of addresses. A decoder that has the
same instruction in progress behind more bytes takes the same steps (`Decoder.step_behind`), and so
it comes to the same answer, but for the length and for what the bytes ask for
(`Decoder.decode_behind`).
-/

namespace Iapx86

open Opcode

/-! ## What a run asks for -/

namespace Opcode

/-- The segment that a byte before the opcode names. -/
def segmentNamed? (byte : UInt8) : Option Segment :=
  [(0x26, .es), (0x2E, .cs), (0x36, .ss), (0x3E, .ds), (0x64, .fs), (0x65, .gs)].lookup byte

/-- The kind of repetition that a byte before the opcode names. -/
def repetitionNamed? (byte : UInt8) : Option Repetition :=
  [(0xF2, .whileNotEqual), (0xF3, .whileEqual)].lookup byte

/-- The lists agree with the opcode map, and no byte asks for two things. -/
theorem modifier?_eq : ∀ byte : UInt8,
    (match modifier? byte with
    | some (.segment s) =>
        segmentNamed? byte = some s ∧ repetitionNamed? byte = none ∧ byte ≠ 0xF0 ∧ byte ≠ 0x67
    | some (.repetition r) =>
        segmentNamed? byte = none ∧ repetitionNamed? byte = some r ∧ byte ≠ 0xF0 ∧ byte ≠ 0x67
    | some .lock => segmentNamed? byte = none ∧ repetitionNamed? byte = none ∧ byte = 0xF0
    | some .addressSize => segmentNamed? byte = none ∧ repetitionNamed? byte = none ∧ byte = 0x67
    | none => segmentNamed? byte = none ∧ repetitionNamed? byte = none ∧ byte ≠ 0xF0 ∧ byte ≠ 0x67 :
      Bool) :=
  forall_byte (by decide +kernel)

end Opcode

namespace Prefixes

/-- What a run of bytes before the opcode asks for. -/
def ofRun (run : List UInt8) : Prefixes where
  segmentOverride := (run.filterMap segmentNamed?).getLast?
  repetition := (run.filterMap repetitionNamed?).getLast?
  lock := decide (0xF0 ∈ run)
  addressSize := if 0x67 ∈ run then .bits32 else .bits16

theorem modifiedBy_eq (p : Prefixes) (byte : UInt8) :
    p.modifiedBy byte =
      { segmentOverride := (segmentNamed? byte).or p.segmentOverride
        repetition := (repetitionNamed? byte).or p.repetition
        lock := p.lock || decide (byte = 0xF0)
        addressSize := if byte = 0x67 then .bits32 else p.addressSize } := by
  have hcases := modifier?_eq byte
  rw [modifiedBy]
  cases hmodifier : modifier? byte with
  | none =>
      rw [hmodifier] at hcases
      simp_all
  | some modifier =>
      rw [hmodifier] at hcases
      cases modifier with
      | segment s => simp_all [PrefixByte.apply]
      | repetition r => simp_all [PrefixByte.apply]
      | lock =>
          obtain ⟨hsegment, hrepetition, rfl⟩ := of_decide_eq_true hcases
          simp [PrefixByte.apply, hsegment, hrepetition]
      | addressSize =>
          obtain ⟨hsegment, hrepetition, rfl⟩ := of_decide_eq_true hcases
          simp [PrefixByte.apply, hsegment, hrepetition]

theorem getLast?_filterMap_concat {α : Type} (f : UInt8 → Option α) (run : List UInt8)
    (byte : UInt8) :
    ((run ++ [byte]).filterMap f).getLast? = (f byte).or (run.filterMap f).getLast? := by
  rw [List.filterMap_append, List.getLast?_append]
  cases h : f byte <;> simp [h]

/-- Going through the run byte by byte comes to the same. -/
theorem foldl_modifiedBy (run : List UInt8) : run.foldl modifiedBy {} = ofRun run := by
  -- The last byte prevails, so the run is taken apart at its end.
  induction run using List.reverseRecOn with
  | nil => rfl
  | append_singleton run byte ih =>
      have hwide : (0x67 ∈ run ++ [byte]) = (byte = 0x67 ∨ 0x67 ∈ run) := by
        simp [or_comm, eq_comm]
      have hlock : decide (0xF0 ∈ run ++ [byte]) =
          (decide (0xF0 ∈ run) || decide (byte = 0xF0)) := by
        simp [eq_comm]
      rw [List.foldl_append, ih, List.foldl_cons, List.foldl_nil, modifiedBy_eq, ofRun, ofRun]
      simp only [getLast?_filterMap_concat, hlock, hwide, ite_or]

/-- The order matters only among the bytes that name segments, and among those that name kinds of
repetition. -/
theorem ofRun_perm {run run' : List UInt8} (hperm : run'.Perm run)
    (hsegments : run'.filterMap segmentNamed? = run.filterMap segmentNamed?)
    (hrepetitions : run'.filterMap repetitionNamed? = run.filterMap repetitionNamed?) :
    ofRun run' = ofRun run := by
  simp only [ofRun, hsegments, hrepetitions, hperm.mem_iff]

end Prefixes

/-! ## The instruction behind the run -/

/-- Past the opcode, with nothing in progress that is undefined. -/
def Phase.isUnderway : Phase → Bool
  | opcode => false
  | secondary => true
  | modRm form _ => form.isDefined
  | scaleIndexBase body _ | trailing body _ _ _ => body.operation ≠ .undefined

theorem Phase.Leads.isUnderway {model : Model} {phase phase' : Phase} {byte : UInt8}
    (h : phase.Leads model byte phase')
    (hphase : phase.isUnderway = true ∨ phase = .opcode ∧ ¬ IsPrefix model byte) :
    phase'.isUnderway = true := by
  have hprimary := isDefined_primary byte
  have hsecondary := isDefined_secondary byte
  cases h with
  | pass hknown hshape =>
      have hmodifier := isSome_modifier?_iff byte
      rw [modifier?, hshape] at hmodifier
      rcases hphase with hphase | ⟨-, hprefix⟩
      · cases hphase
      · exact absurd ⟨hmodifier.mp rfl, hknown.2⟩ hprefix
  | escape hknown hshape => rfl
  | fixed hknown hshape hsize | addressed hknown hshape =>
      rw [hshape] at hprimary
      exact hprimary
  | secondaryFixed hshape hsize | secondaryAddressed hshape =>
      rw [hshape] at hsecondary
      exact hsecondary
  | scaled hresolve | resolved hresolve hsize =>
      rcases hphase with hform | ⟨hphase, -⟩
      · exact decide_eq_true (ModRm.operation_of_resolve? hform hresolve)
      · cases hphase
  | skipped hsize | gathered hmore =>
      rcases hphase with hbody | ⟨hphase, -⟩
      · exact hbody
      · cases hphase

/-- The same instruction in progress, behind `n` more bytes and with what they ask for. The width
of addresses stays as it is. -/
def Decoder.behind (d : Decoder) (p : Prefixes) (n : Nat) : Decoder :=
  { d with
    prefixes := { p with addressSize := d.prefixes.addressSize }
    consumed := n + d.consumed }

/-- The same instruction with what those bytes ask for, if it is one at all. -/
def Instruction.behind (i : Instruction) (p : Prefixes) : Instruction :=
  if i.isUndefined then i
  else
    { i with
      segmentOverride := p.segmentOverride
      repetition := p.repetition
      lock := p.lock }

def StepResult.behind (p : Prefixes) (n : Nat) : StepResult → StepResult
  | complete length i => complete (n + length) (i.behind p)
  | pending d => pending (d.behind p n)

def DecodeResult.behind (p : Prefixes) (n : Nat) : DecodeResult → DecodeResult
  | complete length i => complete (n + length) (i.behind p)
  | needMore atLeast => needMore atLeast

namespace Decoder

variable {d : Decoder} {p : Prefixes} {n : Nat}

theorem refuse_behind : (d.behind p n).refuse = d.refuse.behind p n := by
  simp [refuse, behind, StepResult.behind, Instruction.behind, Nat.add_assoc]

theorem enter_behind (phase : Phase) :
    (d.behind p n).enter phase = (d.enter phase).behind p n := by
  simp [enter, behind, StepResult.behind, Nat.add_assoc]

theorem finish_behind {body : Body} (hbody : body.operation ≠ .undefined) :
    (d.behind p n).finish body = (d.finish body).behind p n := by
  simp [finish, behind, StepResult.behind, Instruction.behind, Instruction.isUndefined, hbody,
    Nat.add_assoc]

theorem awaitTrailing_behind {body : Body} (hbody : body.operation ≠ .undefined)
    (layout : TrailingLayout) :
    (d.behind p n).awaitTrailing body layout = (d.awaitTrailing body layout).behind p n := by
  unfold awaitTrailing
  split
  · exact finish_behind hbody
  · exact enter_behind _

theorem stepOpcode_behind {byte : UInt8} (hbyte : ¬ IsPrefix d.model byte) :
    (d.behind p n).stepOpcode byte = (d.stepOpcode byte).behind p n := by
  by_cases hknown : IsKnown d.model byte
  · have hmodifier := isSome_modifier?_iff byte
    have hdefined := isDefined_primary byte
    rw [stepOpcode_of_isKnown hknown, stepOpcode_of_isKnown (d := d.behind p n) hknown]
    cases hshape : (OpcodeMap.primary byte).shape with
    | undefined => exact refuse_behind
    | prefixByte modifier =>
        rw [modifier?, hshape] at hmodifier
        exact absurd ⟨hmodifier.mp rfl, hknown.2⟩ hbyte
    | escape => exact enter_behind _
    | fixed body layout =>
        rw [hshape] at hdefined
        exact awaitTrailing_behind (of_decide_eq_true hdefined) layout
    | modRm form width => exact enter_behind _
  · rw [stepOpcode_of_not_isKnown hknown, stepOpcode_of_not_isKnown (d := d.behind p n) hknown]
    exact refuse_behind

theorem stepSecondary_behind (byte : UInt8) :
    (d.behind p n).stepSecondary byte = (d.stepSecondary byte).behind p n := by
  have hdefined := isDefined_secondary byte
  have hmodel : (d.behind p n).model = d.model := rfl
  unfold stepSecondary
  rw [hmodel]
  split
  · exact refuse_behind
  · cases hshape : (OpcodeMap.secondary byte).shape with
    | undefined | prefixByte modifier | escape => exact refuse_behind
    | fixed body layout =>
        rw [hshape] at hdefined
        exact awaitTrailing_behind (of_decide_eq_true hdefined) layout
    | modRm form width => exact enter_behind _

theorem stepModRm_behind {form : ModRmForm} (hform : form.isDefined = true) (width : Width)
    (byte : UInt8) :
    (d.behind p n).stepModRm form width byte = (d.stepModRm form width byte).behind p n := by
  have hmodel : (d.behind p n).model = d.model := rfl
  have hwide : (d.behind p n).takesScaleIndexBase (.ofByte byte) =
      d.takesScaleIndexBase (.ofByte byte) := rfl
  rw [stepModRm, stepModRm, hmodel, hwide]
  cases hresolve : (ModRm.ofByte byte).resolve? d.model form width with
  | none => exact refuse_behind
  | some resolved =>
      dsimp only
      split
      · exact enter_behind _
      · exact awaitTrailing_behind (ModRm.operation_of_resolve? hform hresolve) _

theorem stepTrailing_behind {body : Body} (hbody : body.operation ≠ .undefined)
    (layout : TrailingLayout) (received : Nat) (register : TrailingRegister) (byte : UInt8) :
    (d.behind p n).stepTrailing body layout received register byte =
      (d.stepTrailing body layout received register byte).behind p n := by
  unfold stepTrailing
  dsimp only
  split
  · exact enter_behind _
  · apply finish_behind
    rwa [Body.operation_withTrailing]

/-- From the opcode on, a step is the same behind more bytes. -/
theorem step_behind {byte : UInt8}
    (hphase : d.phase.isUnderway = true ∨ d.phase = .opcode ∧ ¬ IsPrefix d.model byte) :
    (d.behind p n).step byte = (d.step byte).behind p n := by
  rw [step, step, show (d.behind p n).phase = d.phase from rfl]
  cases hp : d.phase with
  | opcode =>
      rw [hp] at hphase
      rcases hphase with hphase | ⟨-, hbyte⟩
      · cases hphase
      · exact stepOpcode_behind hbyte
  | secondary => exact stepSecondary_behind byte
  | modRm form width =>
      simp only [hp, Phase.isUnderway, reduceCtorEq, false_and, or_false] at hphase
      exact stepModRm_behind hphase width byte
  | scaleIndexBase body layout =>
      simp only [hp, Phase.isUnderway, reduceCtorEq, false_and, or_false] at hphase
      exact awaitTrailing_behind (of_decide_eq_true hphase) layout
  | trailing body layout received register =>
      simp only [hp, Phase.isUnderway, reduceCtorEq, false_and, or_false] at hphase
      exact stepTrailing_behind (of_decide_eq_true hphase) layout received register byte

/-- So is the rest of the instruction. -/
theorem decode_behind (hphase : d.phase.isUnderway = true) (hconsumed : 0 < d.consumed)
    (bytes : List UInt8) :
    ((d.behind p n).decode bytes).1 = (d.decode bytes).1.behind p n := by
  induction bytes generalizing d with
  | nil =>
      have hpos : d.consumed ≠ 0 := by omega
      simp [DecodeResult.behind, behind, shortfall, hpos]
  | cons byte bytes ih =>
      have hnext := d.consumed_step byte
      rw [decode_cons_fst, decode_cons_fst, step_behind (.inl hphase)]
      cases hstep : d.step byte with
      | complete length i => rfl
      | pending d' =>
          rw [hstep, StepResult.consumed] at hnext
          exact ih ((step_eq_pending hstep).2.isUnderway (.inl hphase)) (by omega)

/-- And so is the whole instruction, if there is a byte of it. -/
theorem decode_cons_behind (hphase : d.phase = .opcode) {byte : UInt8}
    (hbyte : ¬ IsPrefix d.model byte) (bytes : List UInt8) :
    ((d.behind p n).decode (byte :: bytes)).1 = (d.decode (byte :: bytes)).1.behind p n := by
  have hnext := d.consumed_step byte
  rw [decode_cons_fst, decode_cons_fst, step_behind (.inr ⟨hphase, hbyte⟩)]
  cases hstep : d.step byte with
  | complete length i => rfl
  | pending d' =>
      rw [hstep, StepResult.consumed] at hnext
      exact decode_behind ((step_eq_pending hstep).2.isUnderway (.inr ⟨hphase, hbyte⟩)) (by omega) _

end Decoder

namespace Decoder

/-- A new decoder passes a run that leaves room for an opcode. -/
theorem decode_new_run {model : Model} {run : List UInt8}
    (hrun : ∀ byte ∈ run, IsPrefix model byte) (hlength : run.length ≤ 14) (rest : List UInt8) :
    (new model).decode (run ++ rest) = ((new model).passing run).decode rest := by
  have hroom : (new model).consumed + run.length < maxLength := by
    simp only [new, maxLength]
    omega
  exact decode_run rfl hrun hroom rest

@[simp] theorem prefixes_passing_new (model : Model) (run : List UInt8) :
    ((new model).passing run).prefixes = .ofRun run := Prefixes.foldl_modifiedBy run

@[simp] theorem consumed_passing_new (model : Model) (run : List UInt8) :
    ((new model).passing run).consumed = run.length := Nat.zero_add _

theorem passing_new {model : Model} {run : List UInt8} (hwide : 0x67 ∉ run) :
    (new model).passing run = (new model).behind (.ofRun run) run.length := by
  have hprefixes : run.foldl Prefixes.modifiedBy (new model).prefixes = .ofRun run :=
    prefixes_passing_new model run
  have hsize : (Prefixes.ofRun run).addressSize = .bits16 := if_neg hwide
  rw [passing, behind, hprefixes, Nat.add_comm]
  congr 1
  rw [show (new model).prefixes.addressSize = .bits16 from rfl, ← hsize]

end Decoder

theorem decodeOne_run_nil {model : Model} {run : List UInt8}
    (hrun : ∀ byte ∈ run, IsPrefix model byte) (hlength : run.length ≤ 14) :
    decodeOne model run = .needMore (if run = [] then 0 else 1) := by
  have hdecode := Decoder.decode_new_run hrun hlength []
  rw [List.append_nil] at hdecode
  rw [decodeOne, hdecode]
  simp [Decoder.passing, Decoder.new, Decoder.shortfall]

theorem decodeOne_run_cons {model : Model} {run : List UInt8}
    (hrun : ∀ byte ∈ run, IsPrefix model byte ∧ byte ≠ 0x67) (hlength : run.length ≤ 14)
    {byte : UInt8} (hbyte : ¬ IsPrefix model byte) (bytes : List UInt8) :
    decodeOne model (run ++ byte :: bytes) =
      (decodeOne model (byte :: bytes)).behind (.ofRun run) run.length := by
  have hwide : 0x67 ∉ run := fun hmem => (hrun _ hmem).2 rfl
  rw [decodeOne, Decoder.decode_new_run (fun b hb => (hrun b hb).1) hlength,
    Decoder.passing_new hwide]
  exact Decoder.decode_cons_behind rfl hbyte bytes

/-- A run of bytes before the opcode, none of which asks for wide addresses, adds its length and
what it asks for, and nothing else: of segments and of kinds of repetition the last one named, and
the lock if it occurs at all. Of bytes that encode no instruction it only adds to the length, and
the bytes still missing are as many as before, unless there were none to begin with. So bytes of
different kinds may change places. -/
theorem decodeOne_run_append (model : Model) (run bytes : List UInt8)
    (hrun : ∀ byte ∈ run, IsPrefix model byte ∧ byte ≠ 0x67) (hlength : run.length ≤ 14)
    (hbytes : ∀ byte ∈ bytes.head?, ¬ IsPrefix model byte) :
    (decodeOne model (run ++ bytes) =
      match decodeOne model bytes with
      | .complete length i =>
          .complete (run.length + length)
            (if i.isUndefined then i
            else
              { i with
                segmentOverride := (run.filterMap segmentNamed?).getLast?
                repetition := (run.filterMap repetitionNamed?).getLast?
                lock := decide (0xF0 ∈ run) })
      | .needMore atLeast => .needMore (if bytes = [] ∧ run ≠ [] then 1 else atLeast)) ∧
    ∀ run' : List UInt8, run'.Perm run →
      run'.filterMap segmentNamed? = run.filterMap segmentNamed? →
      run'.filterMap repetitionNamed? = run.filterMap repetitionNamed? →
      decodeOne model (run' ++ bytes) = decodeOne model (run ++ bytes) := by
  cases bytes with
  | nil =>
      have hnil : decodeOne model [] = .needMore 0 := rfl
      constructor
      · rw [List.append_nil, decodeOne_run_nil (fun b hb => (hrun b hb).1) hlength, hnil]
        by_cases hempty : run = [] <;> simp [hempty]
      · intro run' hperm _ _
        have hrun' : ∀ byte ∈ run', IsPrefix model byte :=
          fun b hb => (hrun b (hperm.mem_iff.mp hb)).1
        have hempty : run' = [] ↔ run = [] := by
          rw [← List.length_eq_zero_iff, hperm.length_eq, List.length_eq_zero_iff]
        rw [List.append_nil, List.append_nil,
          decodeOne_run_nil hrun' (hperm.length_eq ▸ hlength),
          decodeOne_run_nil (fun b hb => (hrun b hb).1) hlength]
        simp only [hempty]
  | cons byte bytes =>
      have hbyte : ¬ IsPrefix model byte := hbytes byte rfl
      constructor
      · rw [decodeOne_run_cons hrun hlength hbyte]
        cases decodeOne model (byte :: bytes) with
        | complete length i => rfl
        | needMore atLeast => simp [DecodeResult.behind]
      · intro run' hperm hsegments hrepetitions
        have hrun' : ∀ byte ∈ run', IsPrefix model byte ∧ byte ≠ 0x67 :=
          fun b hb => hrun b (hperm.mem_iff.mp hb)
        rw [decodeOne_run_cons hrun' (hperm.length_eq ▸ hlength) hbyte,
          decodeOne_run_cons hrun hlength hbyte, hperm.length_eq,
          Prefixes.ofRun_perm hperm hsegments hrepetitions]

/-- Two segments and a repetition before a string operation, in two orders. -/
theorem decodeOne_run_append_movs :
    (∀ byte ∈ [0x26, 0xF3, 0x2E], IsPrefix .i8086 byte ∧ byte ≠ 0x67) ∧
      [0x26, 0xF3, 0x2E].length ≤ 14 ∧ (∀ byte ∈ [0xA4].head?, ¬ IsPrefix .i8086 byte) ∧
      decodeOne .i8086 [0x26, 0xF3, 0x2E, 0xA4] =
        .complete 4
          { operation := .movs, width := .byte, segmentOverride := some .cs,
            repetition := some .whileEqual } ∧
      decodeOne .i8086 [0xF3, 0x26, 0x2E, 0xA4] = decodeOne .i8086 [0x26, 0xF3, 0x2E, 0xA4] := by
  have hrun : ∀ byte ∈ [0x26, 0xF3, 0x2E], IsPrefix .i8086 byte ∧ byte ≠ 0x67 := by
    decide +kernel
  have hbytes : ∀ byte ∈ [0xA4].head?, ¬ IsPrefix .i8086 byte := by decide +kernel
  have hone : decodeOne .i8086 [0xA4] = .complete 1 { operation := .movs, width := .byte } := by
    decide +kernel
  have h := decodeOne_run_append .i8086 [0x26, 0xF3, 0x2E] [0xA4] hrun (by decide) hbytes
  rw [hone] at h
  exact ⟨hrun, by decide, hbytes, h.1, h.2 [0xF3, 0x26, 0x2E] (.swap _ _ _) (by decide) (by decide)⟩

end Iapx86
