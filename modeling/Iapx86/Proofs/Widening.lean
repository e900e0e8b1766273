import Iapx86.Proofs.Answers
import Iapx86.Proofs.Extent

/-!
# Wide addresses

On a model with 32-bit addresses the byte `67` asks for them. To the instruction behind it this
matters in one place: after an addressing byte for memory with `rm` 4 there is a byte more, and it
is not looked at (`LeadsToScale`). The ways through the bytes are otherwise the same
(`Decoder.Settles.widened`, `Decoder.settles_of_leadsToScale`), and so are the answers, but for the
length and the width of addresses (`Decoder.decode_widened`, `Decoder.decode_scaled`).
-/

namespace Iapx86

open Opcode

/-- The same instruction with wide addresses, if it is one at all. -/
def Instruction.widened (i : Instruction) : Instruction :=
  if i.isUndefined then i else { i with addressSize := .bits32 }

/-- The same answer with wide addresses and `n` bytes more. -/
def DecodeResult.widened (n : Nat) : DecodeResult → DecodeResult
  | complete length i => complete (n + length) i.widened
  | needMore atLeast => needMore atLeast

/-- An opcode and an addressing byte that goes with it, after which wide addresses have a byte of
scale, index and base. -/
inductive LeadsToScale (model : Model) : List UInt8 → Prop
  | mk {opcode : Opcode} {byte : UInt8} (hlegal : opcode.IsLegal model)
      (htakes : opcode.TakesAddressing) (haccepts : ¬ opcode.Refuses model (.ofByte byte))
      (hmode : (ModRm.ofByte byte).mode ≠ 3) (hrm : (ModRm.ofByte byte).rm = 4) :
      LeadsToScale model (opcode.bytes ++ [byte])

theorem settledAnswer_widened (p : Prefixes) (n length : Nat) {body : Body}
    (hbody : body.operation ≠ .undefined) (layout : TrailingLayout) (bytes : List UInt8) :
    settledAnswer { p with addressSize := .bits32 } (n + length) body layout bytes =
      (settledAnswer p length body layout bytes).widened n := by
  rw [settledAnswer, settledAnswer]
  split
  · rfl
  · rw [DecodeResult.widened, Instruction.widened,
      Instruction.isUndefined_withTrailing _ hbody, if_neg Bool.false_ne_true, Nat.add_assoc]

/-! ## The ways through the bytes -/

namespace Decoder

/-- The same instruction in progress, behind `n` more bytes that ask for wide addresses. -/
def widened (d : Decoder) (n : Nat) : Decoder :=
  { d with
    prefixes := { d.prefixes with addressSize := .bits32 }
    consumed := n + d.consumed }

@[simp] theorem consumed_widened (d : Decoder) (n : Nat) :
    (d.widened n).consumed = n + d.consumed := rfl

variable {d : Decoder} {head bytes : List UInt8} {body : Body} {layout : TrailingLayout}

theorem takesScaleIndexBase_of_narrow (hnarrow : d.prefixes.addressSize = .bits16) (m : ModRm) :
    d.takesScaleIndexBase m = false := by
  simp [takesScaleIndexBase, hnarrow]

theorem takesScaleIndexBase_widened (n : Nat) (m : ModRm) :
    (d.widened n).takesScaleIndexBase m = true ↔ m.mode ≠ 3 ∧ m.rm = 4 := by
  simp [takesScaleIndexBase, widened, ModRm.isRegister]

theorem leadsToScale_of_resolve? {opcode : Opcode} {form : ModRmForm} {width : Width}
    {byte : UInt8} (hlegal : opcode.IsLegal d.model) (hshape : opcode.shape = .modRm form width)
    (hresolve : (ModRm.ofByte byte).resolve? d.model form width = some (body, layout)) {n : Nat}
    (hwide : (d.widened n).takesScaleIndexBase (.ofByte byte) = true) :
    LeadsToScale d.model (opcode.bytes ++ [byte]) := by
  obtain ⟨hmode, hrm⟩ := (takesScaleIndexBase_widened n _).mp hwide
  have hagrees := opcode.agreesWith_shape
  rw [hshape] at hagrees
  refine .mk hlegal hagrees.1 ?_ hmode hrm
  rw [← Opcode.resolve?_eq_none_iff hshape, hresolve]
  exact Option.some_ne_none _

/-- Other bytes settle the same with wide addresses. -/
theorem Settles.widened (h : d.Settles head body layout)
    (hnarrow : d.prefixes.addressSize = .bits16) (hscale : ¬ LeadsToScale d.model head) (n : Nat) :
    (d.widened n).Settles head body layout := by
  cases h with
  | fixed hlegal hshape => exact .fixed hlegal hshape
  | addressed hlegal hshape hresolve hsib =>
      refine .addressed hlegal hshape hresolve ?_
      rw [← Bool.not_eq_true]
      exact fun hwide => hscale (leadsToScale_of_resolve? hlegal hshape hresolve hwide)
  | scaled hlegal hshape hresolve hsib =>
      rw [takesScaleIndexBase_of_narrow hnarrow] at hsib
      cases hsib

theorem Unsettled.widened (h : d.Unsettled bytes) (hnarrow : d.prefixes.addressSize = .bits16)
    (n : Nat) : (d.widened n).Unsettled bytes := by
  cases h with
  | escape hescape => exact .escape hescape
  | opcode hlegal hshape => exact .opcode hlegal hshape
  | scaled hlegal hshape hresolve hsib =>
      rw [takesScaleIndexBase_of_narrow hnarrow] at hsib
      cases hsib

/-- What an opcode and its addressing byte settle, they settle with wide addresses and any byte
more. -/
theorem settles_of_leadsToScale (h : LeadsToScale d.model head)
    (hnarrow : d.prefixes.addressSize = .bits16) (n : Nat) :
    ∃ body layout, d.Settles head body layout ∧
      ∀ sib, (d.widened n).Settles (head ++ [sib]) body layout := by
  cases h with
  | @mk opcode byte hlegal htakes haccepts hmode hrm =>
      have hagrees := opcode.agreesWith_shape
      rcases hlegal.shape_cases with ⟨body, layout, hshape⟩ | ⟨form, width, hshape⟩
      · rw [hshape] at hagrees
        exact absurd htakes hagrees.1
      · obtain ⟨body, layout, hresolve⟩ := Opcode.exists_resolve? hshape haccepts
        have hwide := (takesScaleIndexBase_widened (d := d) n _).mpr ⟨hmode, hrm⟩
        refine ⟨body, layout, .addressed hlegal hshape hresolve
          (takesScaleIndexBase_of_narrow hnarrow _), fun sib => ?_⟩
        rw [List.append_assoc, List.singleton_append]
        exact .scaled hlegal hshape hresolve hwide

/-! ## The answers -/

/-- Unless a byte of scale, index and base follows, wide addresses add to the length and nothing
else. -/
theorem decode_widened (hphase : d.phase = .opcode) (hnarrow : d.prefixes.addressSize = .bits16)
    (hne : bytes ≠ []) (hhead : ∀ opcode ∈ bytes.head?, ¬ IsPrefix d.model opcode)
    (hscale : ∀ head, LeadsToScale d.model head → ¬ head <+: bytes) (n : Nat) :
    ((d.widened n).decode bytes).1 = (d.decode bytes).1.widened n := by
  have hphase' : (d.widened n).phase = .opcode := hphase
  have hhead' : ∀ opcode ∈ bytes.head?, ¬ IsPrefix (d.widened n).model opcode := hhead
  cases outcome hne hhead with
  | refused hrejected =>
      have hrejected' : RejectedFrom (d.widened n).model (d.widened n).consumed bytes _ :=
        hrejected.add n
      rw [decode_of_rejectedFrom hphase hhead hrejected,
        decode_of_rejectedFrom hphase' hhead' hrejected']
      rfl
  | unsettled hunsettled =>
      rw [hunsettled.decode_eq hphase, (hunsettled.widened hnarrow n).decode_eq hphase']
      rfl
  | @settled head tail body layout hbytes hsettles =>
      have hother : ¬ LeadsToScale d.model head :=
        fun h => hscale head h (hbytes ▸ List.prefix_append head tail)
      have hwidened := hsettles.widened hnarrow hother n
      rw [hbytes, hsettles.decode_append hphase, hwidened.decode_append hphase',
        ← settledAnswer_widened _ _ _ hsettles.operation_ne_undefined, ← Nat.add_assoc]
      rfl

/-- A byte of scale, index and base adds one to the length and is not looked at. -/
theorem decode_scaled (hphase : d.phase = .opcode) (hnarrow : d.prefixes.addressSize = .bits16)
    (h : LeadsToScale d.model head) (n : Nat) (sib : UInt8) (bytes : List UInt8) :
    ((d.widened n).decode (head ++ sib :: bytes)).1 =
        (d.decode (head ++ bytes)).1.widened (n + 1) ∧
      ∀ length i, (d.decode (head ++ bytes)).1 = .complete length i → i.isUndefined = false := by
  obtain ⟨body, layout, hsettles, hscaled⟩ := settles_of_leadsToScale h hnarrow n
  have hphase' : (d.widened n).phase = .opcode := hphase
  have hbody := hsettles.operation_ne_undefined
  have hbytes : head ++ sib :: bytes = (head ++ [sib]) ++ bytes := by
    rw [List.append_assoc, List.singleton_append]
  rw [hbytes, (hscaled sib).decode_append hphase', hsettles.decode_append hphase]
  constructor
  · have hlength : (d.widened n).consumed + (head ++ [sib]).length =
        n + 1 + (d.consumed + head.length) := by
      rw [List.length_append, List.length_singleton, consumed_widened]
      omega
    rw [← settledAnswer_widened _ _ _ hbody, hlength]
    rfl
  · intro length i hcomplete
    rw [settledAnswer] at hcomplete
    split at hcomplete
    · cases hcomplete
    · cases hcomplete
      exact Instruction.isUndefined_withTrailing _ hbody layout _

end Decoder

/-! ## The run -/

theorem filterMap_filter_ne {α : Type} {f : UInt8 → Option α} {byte : UInt8} (h : f byte = none)
    (run : List UInt8) : (run.filter (· ≠ byte)).filterMap f = run.filterMap f := by
  rw [List.filterMap_filter]
  congr 1
  funext other
  by_cases heq : other = byte <;> simp [heq, h]

theorem Prefixes.ofRun_of_wide {run : List UInt8} (hwide : 0x67 ∈ run) :
    ofRun run = { ofRun (run.filter (· ≠ 0x67)) with addressSize := .bits32 } := by
  have hsegments : (run.filter (· ≠ 0x67)).filterMap segmentNamed? =
      run.filterMap segmentNamed? := filterMap_filter_ne rfl run
  have hrepetitions : (run.filter (· ≠ 0x67)).filterMap repetitionNamed? =
      run.filterMap repetitionNamed? := filterMap_filter_ne rfl run
  have hlock : 0xF0 ∈ run.filter (· ≠ 0x67) ↔ 0xF0 ∈ run := by simp
  simp only [ofRun, hsegments, hrepetitions, hlock, if_pos hwide]

theorem length_eq_count_add_length_filter (run : List UInt8) (byte : UInt8) :
    run.length = run.count byte + (run.filter (· ≠ byte)).length := by
  rw [run.length_eq_countP_add_countP (· == byte), List.count, List.countP_eq_length_filter,
    List.countP_eq_length_filter]
  simp

/-- A run that asks for wide addresses is the rest of it with wide addresses. -/
theorem Decoder.passing_new_of_wide (model : Model) {run : List UInt8} (hwide : 0x67 ∈ run) :
    (new model).passing run =
      ((new model).passing (run.filter (· ≠ 0x67))).widened (run.count 0x67) := by
  have hprefixes := prefixes_passing_new model run
  have hconsumed := consumed_passing_new model run
  rw [Prefixes.ofRun_of_wide hwide, ← prefixes_passing_new model] at hprefixes
  rw [length_eq_count_add_length_filter run 0x67, ← consumed_passing_new model] at hconsumed
  rw [Decoder.mk.injEq]
  exact ⟨rfl, rfl, hprefixes, hconsumed⟩

/-- Only a model with 32-bit addresses has a byte of scale, index and base. -/
theorem Decoder.phase_after_ne_scaleIndexBase {model : Model} (hmodel : model < .i80386)
    (calls : List Call) (body : Body) (layout : TrailingLayout) :
    ((new model).after calls).phase ≠ .scaleIndexBase body layout := by
  intro hphase
  obtain ⟨pending, hpending⟩ := exists_inProgress_after model calls
  have hsound := hpending.isSound.phase
  rw [hphase, hpending.model_eq] at hsound
  exact Model.not_le.mpr hmodel hsound.1

/-- A run that asks for wide addresses, once or more than once, is for the instruction behind it the
rest of the run: the length and the width of addresses differ, and nothing else does. Only where the
addressing byte leads to a byte of scale, index and base is there this byte more, which is not
looked at. The models before do not have it. -/
theorem decodeOne_run_append_of_wide (run : List UInt8)
    (hrun : ∀ byte ∈ run, IsPrefix .i80386 byte) (hlength : run.length ≤ 14) (hwide : 0x67 ∈ run) :
    let narrow := run.filter (· ≠ 0x67)
    let k := run.count 0x67
    (∀ bytes, bytes ≠ [] → (∀ opcode ∈ bytes.head?, ¬ IsPrefix .i80386 opcode) →
      (∀ head, LeadsToScale .i80386 head → ¬ head <+: bytes) →
      decodeOne .i80386 (run ++ bytes) = (decodeOne .i80386 (narrow ++ bytes)).widened k) ∧
    (∀ head sib bytes, LeadsToScale .i80386 head →
      decodeOne .i80386 (run ++ (head ++ sib :: bytes)) =
        (decodeOne .i80386 (narrow ++ (head ++ bytes))).widened (k + 1) ∧
      ∀ length i, decodeOne .i80386 (narrow ++ (head ++ bytes)) = .complete length i →
        i.isUndefined = false) ∧
    ∀ model < .i80386, ∀ calls body layout,
      ((Decoder.new model).after calls).phase ≠ .scaleIndexBase body layout := by
  intro narrow k
  have hpassing := Decoder.passing_new_of_wide .i80386 hwide
  have hnarrowRun : ∀ byte ∈ narrow, IsPrefix .i80386 byte :=
    fun byte hbyte => hrun byte (List.mem_filter.mp hbyte).1
  have hnarrowLength : narrow.length ≤ 14 := (List.length_filter_le _ run).trans hlength
  have hnarrow : ((Decoder.new .i80386).passing narrow).prefixes.addressSize = .bits16 := by
    rw [Decoder.prefixes_passing_new]
    exact if_neg (by simp [narrow])
  refine ⟨fun bytes hne hhead hscale => ?_, fun head sib bytes hhead => ?_,
    fun model hmodel => Decoder.phase_after_ne_scaleIndexBase hmodel⟩
  · rw [decodeOne, decodeOne, Decoder.decode_new_run hrun hlength,
      Decoder.decode_new_run hnarrowRun hnarrowLength, hpassing]
    exact Decoder.decode_widened rfl hnarrow hne hhead hscale k
  · rw [decodeOne, decodeOne, Decoder.decode_new_run hrun hlength,
      Decoder.decode_new_run hnarrowRun hnarrowLength, hpassing]
    exact Decoder.decode_scaled rfl hnarrow hhead k sib bytes

/-- Addresses are made wide twice. Behind this the byte of scale, index and base is between an
addressing byte and a displacement, and a `nop` has none. -/
theorem decodeOne_run_append_of_wide_twice :
    let run := [0x67, 0x26, 0x67]
    let load : Instruction :=
      { operation := .mov, source := some .indirect, destination := some (.register .ax),
        width := .word, sib := { index := some .si }, displacement := 0x12,
        segmentOverride := some .es }
    let nop : Instruction := { operation := .nop, segmentOverride := some .es }
    (∀ byte ∈ run, IsPrefix .i80386 byte) ∧ run.length ≤ 14 ∧ 0x67 ∈ run ∧
      LeadsToScale .i80386 [0x8B, 0x44] ∧
      decodeOne .i80386 [0x26, 0x8B, 0x44, 0x12] = .complete 4 load ∧
      (∀ sib, decodeOne .i80386 (run ++ [0x8B, 0x44, sib, 0x12]) =
        .complete 7 { load with addressSize := .bits32 }) ∧
      decodeOne .i80386 (run ++ [0x90]) = .complete 4 { nop with addressSize := .bits32 } ∧
      ∀ calls body layout,
        ((Decoder.new .i80286).after calls).phase ≠ .scaleIndexBase body layout := by
  intro run load nop
  have hrun : ∀ byte ∈ run, IsPrefix .i80386 byte := by decide +kernel
  have hscale : LeadsToScale .i80386 [0x8B, 0x44] :=
    @LeadsToScale.mk _ (.primary 0x8B) 0x44 (by decide +kernel) (by decide) (by decide) (by decide)
      (by decide)
  have hload : decodeOne .i80386 [0x26, 0x8B, 0x44, 0x12] = .complete 4 load := by decide +kernel
  have hnop : decodeOne .i80386 [0x26, 0x90] = .complete 2 nop := by decide +kernel
  have hnarrow : run.filter (· ≠ 0x67) = [0x26] := by decide
  have hshort : ∀ head, LeadsToScale .i80386 head → ¬ head <+: [0x90] := by
    rintro _ (@⟨opcode, byte, -, -, -, -, -⟩) hprefix
    have hlength := hprefix.length_le
    cases opcode <;> simp [Opcode.bytes] at hlength
  obtain ⟨hother, hscaled, holder⟩ :=
    decodeOne_run_append_of_wide run hrun (by decide) (by decide)
  rw [hnarrow] at hother hscaled
  refine ⟨hrun, by decide, by decide, hscale, hload, fun sib => ?_, ?_, ?_⟩
  · exact (hscaled [0x8B, 0x44] sib [0x12] hscale).1.trans (congrArg _ hload)
  · exact (hother [0x90] (by decide) (by decide +kernel) hshort).trans (congrArg _ hnop)
  · exact holder .i80286 (by decide)

end Iapx86
