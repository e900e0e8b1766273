import Iapx86.Proofs.Alternatives
import Iapx86.Proofs.Session

/-!
# Where an instruction comes from

Whatever an instruction is decoded from, an opcode and perhaps an addressing byte have settled it,
and its trailing bytes have been read into displacement and operand (`Body.HasOrigin`). So what
holds of all that is settled, and does not depend on the trailing bytes, holds of all instructions.
-/

namespace Iapx86

open Opcode

namespace Opcode

theorem settled?_of_fixed {opcode : Opcode} {body : Body} {layout : TrailingLayout}
    (h : opcode.shape = .fixed body layout) (model : Model) :
    opcode.settled? model none = some (body, layout) := by
  unfold settled?
  rw [h]

theorem settled?_of_modRm {opcode : Opcode} {form : ModRmForm} {width : Width}
    (h : opcode.shape = .modRm form width) (model : Model) (byte : UInt8) :
    opcode.settled? model (some byte) = (ModRm.ofByte byte).resolve? model form width := by
  unfold settled?
  rw [h]

end Opcode

/-- An opcode and the addressing byte, if it takes one, settle the instruction. -/
def Body.IsSettled (model : Model) (body : Body) (layout : TrailingLayout) : Prop :=
  ∃ (opcode : Opcode) (addressing : Option UInt8),
    opcode.settled? model addressing = some (body, layout)

/-- The instruction is settled but for its trailing bytes. -/
def Body.HasOrigin (model : Model) (b : Body) : Prop :=
  ∃ (body : Body) (layout : TrailingLayout) (register : TrailingRegister),
    body.IsSettled model layout ∧ b = body.withTrailing layout register

/-- What is settled in a phase has been settled by an opcode. -/
def Phase.HasOrigin (model : Model) : Phase → Prop
  | modRm form width => ∃ opcode : Opcode, opcode.shape = .modRm form width
  | scaleIndexBase body layout | trailing body layout _ _ => body.IsSettled model layout
  | opcode | secondary => True

theorem Body.IsSettled.hasOrigin {model : Model} {body : Body} {layout : TrailingLayout}
    (h : body.IsSettled model layout) (hsize : layout.size = 0) : body.HasOrigin model :=
  ⟨body, layout, {}, h, (body.withTrailing_of_size_eq_zero hsize {}).symm⟩

section

variable {model : Model} {phase phase' : Phase} {byte : UInt8}

theorem Body.isSettled_of_fixed {opcode : Opcode} {body : Body} {layout : TrailingLayout}
    (h : opcode.shape = .fixed body layout) : body.IsSettled model layout :=
  ⟨opcode, none, settled?_of_fixed h model⟩

theorem Phase.isSettled_of_resolve? {form : ModRmForm} {width : Width} {body : Body}
    {layout : TrailingLayout} (h : (Phase.modRm form width).HasOrigin model)
    (hresolve : (ModRm.ofByte byte).resolve? model form width = some (body, layout)) :
    body.IsSettled model layout := by
  obtain ⟨opcode, hshape⟩ := h
  exact ⟨opcode, some byte, (settled?_of_modRm hshape model byte).trans hresolve⟩

theorem Phase.Leads.hasOrigin (h : phase.Leads model byte phase') (hphase : phase.HasOrigin model) :
    phase'.HasOrigin model := by
  cases h with
  | pass hknown hshape => trivial
  | escape hknown hshape => trivial
  | fixed hknown hshape hsize =>
      have hshape : (Opcode.primary byte).shape = _ := hshape
      exact Body.isSettled_of_fixed hshape
  | addressed hknown hshape => exact ⟨.primary byte, hshape⟩
  | secondaryFixed hshape hsize =>
      have hshape : (Opcode.secondary byte).shape = _ := hshape
      exact Body.isSettled_of_fixed hshape
  | secondaryAddressed hshape => exact ⟨.secondary byte, hshape⟩
  | scaled hresolve => exact isSettled_of_resolve? hphase hresolve
  | resolved hresolve hsize => exact isSettled_of_resolve? hphase hresolve
  | skipped hsize => exact hphase
  | gathered hmore => exact hphase

theorem Phase.Yields.hasOrigin {body : Body} (h : phase.Yields model byte body)
    (hphase : phase.HasOrigin model) : body.HasOrigin model := by
  cases h with
  | fixed hknown hshape hsize =>
      have hshape : (Opcode.primary byte).shape = _ := hshape
      exact (Body.isSettled_of_fixed hshape).hasOrigin hsize
  | secondaryFixed hshape hsize =>
      have hshape : (Opcode.secondary byte).shape = _ := hshape
      exact (Body.isSettled_of_fixed hshape).hasOrigin hsize
  | resolved hresolve hsize => exact (isSettled_of_resolve? hphase hresolve).hasOrigin hsize
  | skipped hsize => exact Body.IsSettled.hasOrigin hphase hsize
  | gathered hlast => exact ⟨_, _, _, hphase, rfl⟩

end

theorem Decoder.hasOrigin_of_decode_complete {d : Decoder} (h : d.phase.HasOrigin d.model)
    {bytes : List UInt8} {length : Nat} {i : Instruction}
    (hdecode : (d.decode bytes).1 = .complete length i) :
    i = .undefined ∨ i.toBody.HasOrigin d.model := by
  induction bytes generalizing d with
  | nil => cases hdecode
  | cons byte bytes ih =>
      rw [decode_cons] at hdecode
      cases hstep : d.step byte with
      | complete length' i' =>
          rw [hstep] at hdecode
          cases hdecode
          exact (step_eq_complete hstep).imp_right fun hyields => hyields.2.hasOrigin h
      | pending next =>
          rw [hstep] at hdecode
          obtain ⟨hmodel, hleads⟩ := step_eq_pending hstep
          rw [← hmodel] at hleads h ⊢
          exact ih (hleads.hasOrigin h) hdecode

/-- Every instruction comes from an opcode, an addressing byte if it takes one, and its trailing
bytes. -/
theorem hasOrigin_of_decodeOne {model : Model} {bytes : List UInt8} {length : Nat}
    {i : Instruction} (h : decodeOne model bytes = .complete length i)
    (hdefined : i.isUndefined = false) : i.toBody.HasOrigin model := by
  rcases (Decoder.new model).hasOrigin_of_decode_complete trivial h with rfl | horigin
  · cases hdefined
  · exact horigin

end Iapx86
