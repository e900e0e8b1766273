import Iapx86.Decoder.Progress
import Iapx86.Proofs.Rejection

/-!
# Older models cut the newest one short

The models differ in few bytes: in some that stand before an opcode or are one, and in the
addressing byte of a move to or from a segment register. `neededModels` goes through an encoding
and says of each byte which model it needs in its place.

Run side by side, the decoders of a model and of the 80386 take the same steps as long as the bytes
need no more than the model has, and the first byte that does is refused (`step_onModel`,
`step_onModel_of_lt`). So the answer of the older model is that of the newest one, or it ends at
this byte.
-/

namespace Iapx86

open Opcode

/-- The place of a byte in an encoding, as far as the models differ there. -/
inductive ByteRole where
  /-- Before the opcode, or the opcode. -/
  | opcode
  /-- The addressing byte of a move to or from a segment register. -/
  | segmentField
  | other
  deriving DecidableEq, Repr

namespace ByteRole

/-- The oldest model that has an instruction with this byte in this place. -/
def needs : ByteRole → UInt8 → Model
  | opcode, byte => introducedIn byte
  | segmentField, byte =>
      if (ModRm.ofByte byte).reg = 4 ∨ (ModRm.ofByte byte).reg = 5 then .i80386 else .i8086
  | other, _ => .i8086

/-- The place of the byte after this one. -/
def next : ByteRole → UInt8 → ByteRole
  | opcode, byte =>
      if byte ∈ prefixBytes then opcode
      else if byte ∈ [0x8C, 0x8E] then segmentField
      else other
  | segmentField, _ | other, _ => other

end ByteRole

/-- The oldest model that each of the bytes needs, when the first has the given place. -/
def neededModels : ByteRole → List UInt8 → List Model
  | _, [] => []
  | role, byte :: bytes => role.needs byte :: neededModels (role.next byte) bytes

/-- The number of bytes that an answer to them takes in. -/
def DecodeResult.taken (r : DecodeResult) (bytes : List UInt8) : Nat :=
  match r with
  | complete length _ => length
  | needMore _ => bytes.length

/-- The place of the byte that a phase waits for. -/
def Phase.role : Phase → ByteRole
  | opcode => .opcode
  | modRm .toSegment _ | modRm .fromSegment _ => .segmentField
  | modRm _ _ | secondary | scaleIndexBase _ _ | trailing _ _ _ _ => .other

namespace Decoder

/-- The same instruction in progress, on another model. -/
def onModel (d : Decoder) (model : Model) : Decoder := { d with model }

@[simp] theorem model_onModel (d : Decoder) (model : Model) : (d.onModel model).model = model := rfl

@[simp] theorem phase_onModel (d : Decoder) (model : Model) : (d.onModel model).phase = d.phase :=
  rfl

@[simp] theorem consumed_onModel (d : Decoder) (model : Model) :
    (d.onModel model).consumed = d.consumed := rfl

@[simp] theorem takesScaleIndexBase_onModel (d : Decoder) (model : Model) (m : ModRm) :
    (d.onModel model).takesScaleIndexBase m = d.takesScaleIndexBase m := rfl

end Decoder

/-- The same result, on another model. -/
def StepResult.onModel : StepResult → Model → StepResult
  | complete length i, _ => .complete length i
  | pending d, model => .pending (d.onModel model)

namespace Decoder

theorem onModel_awaitTrailing (d : Decoder) (model : Model) (body : Body)
    (layout : TrailingLayout) :
    (d.onModel model).awaitTrailing body layout = (d.awaitTrailing body layout).onModel model := by
  unfold awaitTrailing
  split <;> rfl

theorem onModel_stepOpcode {d : Decoder} (hd : d.model = .i80386) {model : Model} {byte : UInt8}
    (h : introducedIn byte ≤ model) :
    (d.onModel model).stepOpcode byte = (d.stepOpcode byte).onModel model := by
  by_cases hassigned : byte ∈ unassigned
  · rw [stepOpcode_of_not_isKnown (fun hknown => hknown.1 hassigned),
      stepOpcode_of_not_isKnown (fun hknown => hknown.1 hassigned)]
    rfl
  · rw [stepOpcode_of_isKnown ⟨hassigned, h⟩,
      stepOpcode_of_isKnown ⟨hassigned, hd ▸ Model.le_i80386 _⟩]
    cases (OpcodeMap.primary byte).shape with
    | undefined => rfl
    | prefixByte p =>
        dsimp only
        by_cases hfull : (d.onModel model).consumed + 1 ≥ maxLength
        · rw [if_pos hfull, if_pos (d.consumed_onModel model ▸ hfull)]
          rfl
        · rw [if_neg hfull, if_neg (d.consumed_onModel model ▸ hfull)]
          rfl
    | escape => rfl
    | fixed body layout => exact d.onModel_awaitTrailing model body layout
    | modRm form width => rfl

theorem onModel_stepSecondary {d : Decoder} (hd : d.model = .i80386) {model : Model} {byte : UInt8}
    (hmodel : .i80286 ≤ model) :
    (d.onModel model).stepSecondary byte = (d.stepSecondary byte).onModel model := by
  have hescape : ∀ m : Model, .i80286 ≤ m → IsKnown m 0x0F := fun m hm => ⟨by decide, hm⟩
  have hlegal : (Legality.ofModel model).secondary byte =
      (Legality.ofModel d.model).secondary byte := by
    rw [Bool.eq_iff_iff, secondary_ofModel_iff, secondary_ofModel_iff, hd]
    exact and_congr_left fun _ => ⟨fun _ => hescape _ (by decide), fun _ => hescape _ hmodel⟩
  rw [stepSecondary, stepSecondary, onModel, hlegal]
  split
  · rfl
  · cases (OpcodeMap.secondary byte).shape with
    | undefined => rfl
    | prefixByte p => rfl
    | escape => rfl
    | fixed body layout => exact d.onModel_awaitTrailing model body layout
    | modRm form width => rfl

/-- The forms that the models differ in are those that name a segment register. -/
theorem resolve?_of_needs_le {form : ModRmForm} {width : Width} {byte : UInt8} {model : Model}
    (h : (Phase.modRm form width).role.needs byte ≤ model) :
    (ModRm.ofByte byte).resolve? model form width =
      (ModRm.ofByte byte).resolve? .i80386 form width := by
  have hsegment : ByteRole.segmentField.needs byte ≤ model →
      Segment.ofIndex? model (ModRm.ofByte byte).reg =
        Segment.ofIndex? .i80386 (ModRm.ofByte byte).reg := by
    rw [ByteRole.needs]
    split
    · intro hneeds
      unfold Segment.ofIndex?
      simp [hneeds, Model.le_i80386]
    · next hreg =>
        intro _
        unfold Segment.ofIndex?
        split <;> simp_all
  cases form with
  | toSegment | fromSegment =>
      rw [ModRm.resolve?, ModRm.resolve?, ModRmForm.select?, ModRmForm.select?, hsegment h]
  | _ => rfl

theorem onModel_stepModRm {d : Decoder} (hd : d.model = .i80386) {model : Model}
    {form : ModRmForm} {width : Width} {byte : UInt8}
    (h : (Phase.modRm form width).role.needs byte ≤ model) :
    (d.onModel model).stepModRm form width byte = (d.stepModRm form width byte).onModel model := by
  rw [stepModRm, stepModRm, hd, ← resolve?_of_needs_le h, model_onModel]
  cases (ModRm.ofByte byte).resolve? model form width with
  | none => rfl
  | some resolved =>
      have hsame := d.takesScaleIndexBase_onModel model (ModRm.ofByte byte)
      dsimp only
      by_cases hsib : (d.onModel model).takesScaleIndexBase (ModRm.ofByte byte) = true
      · rw [if_pos hsib, if_pos (hsame ▸ hsib)]
        rfl
      · rw [if_neg hsib, if_neg (hsame ▸ hsib)]
        exact d.onModel_awaitTrailing model _ _

theorem onModel_stepTrailing (d : Decoder) (model : Model) (body : Body) (layout : TrailingLayout)
    (received : Nat) (register : TrailingRegister) (byte : UInt8) :
    (d.onModel model).stepTrailing body layout received register byte =
      (d.stepTrailing body layout received register byte).onModel model := by
  unfold stepTrailing
  dsimp only
  split <;> rfl

/-- While the bytes need no more than the model has, its decoder does what that of the newest model
does. -/
theorem step_onModel {d : Decoder} (hd : d.model = .i80386) {model : Model} {byte : UInt8}
    (hsecondary : d.phase = .secondary → .i80286 ≤ model) (h : d.phase.role.needs byte ≤ model) :
    (d.onModel model).step byte = (d.step byte).onModel model := by
  rw [step, step, phase_onModel]
  cases hphase : d.phase with
  | opcode =>
      rw [hphase] at h
      exact onModel_stepOpcode hd h
  | secondary => exact onModel_stepSecondary hd (hsecondary hphase)
  | modRm form width =>
      rw [hphase] at h
      exact onModel_stepModRm hd h
  | scaleIndexBase body layout => exact d.onModel_awaitTrailing model body layout
  | trailing body layout received register => exact d.onModel_stepTrailing model _ _ _ _ byte

/-- The first byte that needs more than the model has is refused. -/
theorem step_onModel_of_lt {d : Decoder} {model : Model} {byte : UInt8}
    (h : model < d.phase.role.needs byte) : (d.onModel model).step byte = d.refuse := by
  have hold : ¬ model < .i8086 := Model.not_lt.mpr (Model.i8086_le model)
  have hsegment : model < ByteRole.segmentField.needs byte →
      (if .i80386 ≤ model then 5 else 3) < (ModRm.ofByte byte).reg := by
    rw [ByteRole.needs]
    split
    · intro hmodel
      rw [if_neg (Model.not_le.mpr hmodel)]
      omega
    · exact fun hmodel => absurd hmodel hold
  rw [step, phase_onModel]
  cases hphase : d.phase with
  | opcode =>
      rw [hphase] at h
      have hunknown : ¬ IsKnown model byte := fun hknown => Model.not_lt.mpr hknown.2 h
      exact stepOpcode_of_not_isKnown hunknown
  | modRm form width =>
      rw [hphase] at h
      cases form with
      | toSegment | fromSegment => exact stepModRm_of_refuses (hsegment h)
      | _ => exact absurd h hold
  | secondary | scaleIndexBase body layout | trailing body layout received register =>
      rw [hphase] at h
      exact absurd h hold

end Decoder

theorem ByteRole.next_opcode : ∀ byte, opcode.next byte =
    match (OpcodeMap.primary byte).shape with
    | .prefixByte _ => opcode
    | .modRm form width => (Phase.modRm form width).role
    | _ => other :=
  forall_byte (by decide +kernel)

theorem role_secondary : ∀ byte,
    (match (OpcodeMap.secondary byte).shape with
    | .modRm form width => (Phase.modRm form width).role
    | _ => .other) = .other :=
  forall_byte (by decide +kernel)

/-- The place of a byte follows from those before it. -/
theorem Phase.Leads.role_eq {model : Model} {phase phase' : Phase} {byte : UInt8}
    (h : phase.Leads model byte phase') : phase'.role = phase.role.next byte := by
  cases h with
  | pass hknown hshape =>
      change ByteRole.opcode = ByteRole.opcode.next byte
      rw [ByteRole.next_opcode, hshape]
  | escape hknown hshape =>
      change ByteRole.other = ByteRole.opcode.next byte
      rw [ByteRole.next_opcode, hshape]
  | fixed hknown hshape hsize =>
      change ByteRole.other = ByteRole.opcode.next byte
      rw [ByteRole.next_opcode, hshape]
  | @addressed _ form width hknown hshape =>
      change (Phase.modRm form width).role = ByteRole.opcode.next byte
      rw [ByteRole.next_opcode, hshape]
  | secondaryFixed hshape hsize => rfl
  | secondaryAddressed hshape =>
      have hrole := role_secondary byte
      rw [hshape] at hrole
      exact hrole
  | @scaled _ form width body layout hresolve => cases form <;> rfl
  | @resolved _ form width body layout hresolve hsize => cases form <;> rfl
  | skipped hsize => rfl
  | gathered hmore => rfl

theorem Phase.Leads.le_of_secondary {model : Model} {phase : Phase} {byte : UInt8}
    (h : phase.Leads model byte .secondary) : phase.role.needs byte = .i80286 := by
  cases h with
  | escape hknown hshape =>
      rw [(shape_eq_escape_iff byte).mp hshape]
      rfl

namespace Decoder

/-- The number of these bytes that a call takes in. -/
def takes : Decoder → List UInt8 → Nat
  | _, [] => 0
  | d, byte :: bytes =>
      match d.step byte with
      | .complete _ _ => 1
      | .pending d' => d'.takes bytes + 1

theorem takes_cons (d : Decoder) (byte : UInt8) (bytes : List UInt8) :
    d.takes (byte :: bytes) =
      match d.step byte with
      | .complete _ _ => 1
      | .pending d' => d'.takes bytes + 1 := rfl

theorem consumed_add_takes {d : Decoder} {bytes : List UInt8} {length : Nat} {i : Instruction}
    (h : (d.decode bytes).1 = .complete length i) : d.consumed + d.takes bytes = length := by
  induction bytes generalizing d with
  | nil => simp at h
  | cons byte bytes ih =>
      have hconsumed := d.consumed_step byte
      rw [decode_cons_fst] at h
      rw [takes_cons]
      cases hstep : d.step byte with
      | complete length' i' =>
          rw [hstep] at h hconsumed
          cases h
          exact hconsumed.symm
      | pending d' =>
          rw [hstep] at h hconsumed
          have hrest := ih h
          simp only [StepResult.consumed] at hconsumed ⊢
          omega

theorem takes_of_needMore {d : Decoder} {bytes : List UInt8} {atLeast : Nat}
    (h : (d.decode bytes).1 = .needMore atLeast) : d.takes bytes = bytes.length := by
  induction bytes generalizing d with
  | nil => rfl
  | cons byte bytes ih =>
      rw [decode_cons_fst] at h
      rw [takes_cons]
      cases hstep : d.step byte with
      | complete length i =>
          rw [hstep] at h
          cases h
      | pending d' =>
          rw [hstep] at h
          exact congrArg (· + 1) (ih h)

theorem taken_decodeOne (model : Model) (bytes : List UInt8) :
    (decodeOne model bytes).taken bytes = (new model).takes bytes := by
  cases h : decodeOne model bytes with
  | complete length i =>
      have hlength := consumed_add_takes h
      exact hlength.symm.trans (Nat.zero_add _)
  | needMore atLeast => exact (takes_of_needMore h).symm

/-- Going on with an instruction, the decoder of an older model gives what the newest one gives, or
refuses the first byte that needs more. -/
theorem decode_onModel {d : Decoder} (hd : d.model = .i80386) {model : Model}
    (hsecondary : d.phase = .secondary → .i80286 ≤ model) (bytes : List UInt8) :
    ((d.onModel model).decode bytes).1 =
      match ((neededModels d.phase.role bytes).take (d.takes bytes)).findIdx? (model < ·) with
      | none => (d.decode bytes).1
      | some j => .complete (d.consumed + j + 1) .undefined := by
  induction bytes generalizing d with
  | nil => rfl
  | cons byte bytes ih =>
      rw [decode_cons_fst, decode_cons_fst, neededModels, takes_cons]
      by_cases hneeds : d.phase.role.needs byte ≤ model
      · have hskip : decide (model < d.phase.role.needs byte) = false :=
          decide_eq_false (Model.not_lt.mpr hneeds)
        rw [step_onModel hd hsecondary hneeds]
        cases hstep : d.step byte with
        | complete length i =>
            simp [StepResult.onModel, StepResult.answer, List.findIdx?_cons, hskip]
        | pending d' =>
            have hconsumed := d.consumed_step byte
            obtain ⟨hmodel, hleads⟩ := step_eq_pending hstep
            rw [hstep] at hconsumed
            have hsecondary' : d'.phase = .secondary → .i80286 ≤ model := by
              intro hphase
              rw [hphase] at hleads
              exact hleads.le_of_secondary ▸ hneeds
            change ((d'.onModel model).decode bytes).1 = _
            rw [ih (hmodel.trans hd) hsecondary', hleads.role_eq]
            dsimp only
            rw [List.take_succ_cons, List.findIdx?_cons, hskip]
            cases ((neededModels (d.phase.role.next byte) bytes).take
                (d'.takes bytes)).findIdx? (model < ·) with
            | none => rfl
            | some j =>
                simp only [StepResult.consumed] at hconsumed
                simp only [Bool.false_eq_true, if_false, Option.map_some, hconsumed]
                rw [Nat.add_assoc d.consumed 1 j, Nat.add_comm 1 j]
      · have hlt := Model.not_le.mp hneeds
        rw [step_onModel_of_lt hlt, answer_refuse]
        cases d.step byte with
        | complete length i => simp [List.findIdx?_cons, hlt]
        | pending d' => simp [List.findIdx?_cons, hlt]

end Decoder

/-- The place of the first byte that needs a newer model, among those that the newest model takes
in. -/
def firstNewer? (model : Model) (bytes : List UInt8) : Option Nat :=
  ((neededModels .opcode bytes).take ((decodeOne .i80386 bytes).taken bytes)).findIdx? (model < ·)

theorem decodeOne_eq_match_firstNewer? (model : Model) (bytes : List UInt8) :
    decodeOne model bytes =
      match firstNewer? model bytes with
      | none => decodeOne .i80386 bytes
      | some j => .complete (j + 1) .undefined := by
  have hsecondary : (Decoder.new .i80386).phase = .secondary → .i80286 ≤ model := nofun
  have hconsumed : (Decoder.new .i80386).consumed = 0 := rfl
  have h := Decoder.decode_onModel rfl hsecondary bytes
  simp only [hconsumed, Nat.zero_add] at h
  rw [firstNewer?, Decoder.taken_decodeOne]
  exact h

example : firstNewer? .i80186 [0x2E, 0x8C, 0xE0, 0x90] = some 2 := by decide +kernel

theorem decodeOne_of_firstNewer?_eq_none {model : Model} {bytes : List UInt8}
    (h : firstNewer? model bytes = none) : decodeOne model bytes = decodeOne .i80386 bytes := by
  rw [decodeOne_eq_match_firstNewer?, h]

theorem decodeOne_of_firstNewer?_eq_some {model : Model} {bytes : List UInt8} {j : Nat}
    (h : firstNewer? model bytes = some j) :
    decodeOne model bytes = .complete (j + 1) .undefined := by
  rw [decodeOne_eq_match_firstNewer?, h]

theorem lt_taken_of_firstNewer? {model : Model} {bytes : List UInt8} {j : Nat}
    (h : firstNewer? model bytes = some j) : j < (decodeOne .i80386 bytes).taken bytes := by
  obtain ⟨hj, -⟩ := List.findIdx?_eq_some_iff_getElem.mp h
  exact Nat.lt_of_lt_of_le hj (List.length_take_le _ _)

/-- What is new to a newer model is new to an older one. -/
theorem exists_firstNewer?_le {model newer : Model} (hmodel : model ≤ newer) {bytes : List UInt8}
    {k : Nat} (h : firstNewer? newer bytes = some k) :
    ∃ j ≤ k, firstNewer? model bytes = some j := by
  obtain ⟨hk, hneeds, -⟩ := List.findIdx?_eq_some_iff_getElem.mp h
  have hlt := Model.lt_of_le_of_lt hmodel (of_decide_eq_true hneeds)
  cases hfirst : firstNewer? model bytes with
  | none =>
      have hnone := List.findIdx?_eq_none_iff.mp hfirst _ (List.getElem_mem hk)
      exact absurd hlt (of_decide_eq_false hnone)
  | some j =>
      obtain ⟨hj, -, hbefore⟩ := List.findIdx?_eq_some_iff_getElem.mp hfirst
      refine ⟨j, ?_, rfl⟩
      by_contra hle
      exact hbefore k (by omega) (decide_eq_true hlt)

/-- An older model gives what the newest one gives, up to the first byte that needs more than the
model has in its place; there it refuses. So what is not refused stays as it is on all newer models,
and no model takes in more bytes than a newer one. -/
theorem decodeOne_eq_truncation (model : Model) (bytes : List UInt8) :
    (decodeOne model bytes =
      match firstNewer? model bytes with
      | none => decodeOne .i80386 bytes
      | some j => .complete (j + 1) .undefined) ∧
    ∀ newer, model ≤ newer →
      ((∀ i ∈ (decodeOne model bytes).instruction?, i.isUndefined = false) →
        decodeOne newer bytes = decodeOne model bytes) ∧
      (decodeOne model bytes).taken bytes ≤ (decodeOne newer bytes).taken bytes := by
  refine ⟨decodeOne_eq_match_firstNewer? model bytes, ?_⟩
  intro newer hmodel
  cases hfirst : firstNewer? model bytes with
  | none =>
      have hlater : firstNewer? newer bytes = none := by
        by_contra hsome
        obtain ⟨k, hk⟩ := Option.ne_none_iff_exists'.mp hsome
        obtain ⟨j, -, hj⟩ := exists_firstNewer?_le hmodel hk
        exact nomatch hfirst.symm.trans hj
      have hsame : decodeOne newer bytes = decodeOne model bytes := by
        rw [decodeOne_of_firstNewer?_eq_none hfirst, decodeOne_of_firstNewer?_eq_none hlater]
      exact ⟨fun _ => hsame, hsame ▸ Nat.le_refl _⟩
  | some j =>
      rw [decodeOne_of_firstNewer?_eq_some hfirst]
      constructor
      · intro hdefined
        exact nomatch hdefined .undefined rfl
      · cases hlater : firstNewer? newer bytes with
        | none =>
            rw [decodeOne_of_firstNewer?_eq_none hlater]
            exact lt_taken_of_firstNewer? hfirst
        | some k =>
            obtain ⟨j', hle, hj'⟩ := exists_firstNewer?_le hmodel hlater
            cases hfirst.symm.trans hj'
            rw [decodeOne_of_firstNewer?_eq_some hlater]
            exact Nat.succ_le_succ hle

/-- `60` is an instruction since the 80186, and the 80386 has the same. The 8086 refuses it, and
takes in as many bytes. -/
theorem decodeOne_eq_truncation_pushAll :
    let pushAll : Instruction :=
      { operation := .pusha, width := .word, segmentOverride := some .cs }
    Model.i80186 ≤ .i80386 ∧
      (∀ i ∈ (decodeOne .i80186 [0x2E, 0x60]).instruction?, i.isUndefined = false) ∧
      decodeOne .i80186 [0x2E, 0x60] = .complete 2 pushAll ∧
      decodeOne .i80386 [0x2E, 0x60] = .complete 2 pushAll ∧
      firstNewer? .i8086 [0x2E, 0x60] = some 1 ∧
      decodeOne .i8086 [0x2E, 0x60] = .complete 2 .undefined ∧
      (decodeOne .i8086 [0x2E, 0x60]).taken [0x2E, 0x60] ≤
        (decodeOne .i80386 [0x2E, 0x60]).taken [0x2E, 0x60] := by
  intro pushAll
  have hmodel : Model.i80186 ≤ .i80386 := by decide
  have hpushAll : decodeOne .i80186 [0x2E, 0x60] = .complete 2 pushAll := by decide +kernel
  have hdefined : ∀ i ∈ (decodeOne .i80186 [0x2E, 0x60]).instruction?, i.isUndefined = false := by
    decide +kernel
  have hfirst : firstNewer? .i8086 [0x2E, 0x60] = some 1 := by decide +kernel
  have hnewer := (decodeOne_eq_truncation .i80186 [0x2E, 0x60]).2 .i80386 hmodel
  have holder := decodeOne_eq_truncation .i8086 [0x2E, 0x60]
  rw [hfirst] at holder
  exact ⟨hmodel, hdefined, hpushAll, (hnewer.1 hdefined).trans hpushAll, hfirst, holder.1,
    (holder.2 .i80386 (by decide)).2⟩

end Iapx86
