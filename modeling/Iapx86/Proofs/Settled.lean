import Iapx86.Proofs.Prefixes
import Iapx86.Proofs.Trailing

/-!
# What is settled before the trailing bytes

Once the opcode is read, the addressing byte if it takes one, and the byte of scale, index and base
if there is one, all is settled but for displacement and operand: `Decoder.Settles` lists the ways
to get there. What is left is a number of bytes that are taken in whatever they are, so the answer
is known (`Decoder.Settles.decode_append`).
-/

namespace Iapx86

open Opcode TrailingRegister

/-! ## The trailing bytes -/

/-- The answer when all is settled but for the trailing bytes: either some are missing, or the
instruction is complete. -/
def settledAnswer (p : Prefixes) (length : Nat) (body : Body) (layout : TrailingLayout)
    (bytes : List UInt8) : DecodeResult :=
  if bytes.length < layout.size then .needMore (layout.size - bytes.length)
  else
    .complete (length + layout.size)
      { toPrefixes := p, toBody := body.withTrailing layout (gather (bytes.take layout.size)) }

theorem settledAnswer_of_isProper (p : Prefixes) (length : Nat) (body : Body)
    {layout : TrailingLayout} (h : layout.IsProper) (bytes : List UInt8) :
    settledAnswer p length body layout bytes =
      if bytes.length < layout.displacementSize + layout.operandSize then
        .needMore (layout.displacementSize + layout.operandSize - bytes.length)
      else
        .complete (length + layout.displacementSize + layout.operandSize)
          { toPrefixes := p
            toBody := body.withFields (bytes.take layout.displacementSize)
              ((bytes.drop layout.displacementSize).take layout.operandSize) } := by
  rw [settledAnswer, TrailingLayout.size_eq h]
  split
  · rfl
  · next hlong =>
      have hd : (bytes.take layout.displacementSize).length = layout.displacementSize := by
        rw [List.length_take]
        omega
      have ho : ((bytes.drop layout.displacementSize).take layout.operandSize).length =
          layout.operandSize := by
        rw [List.length_take, List.length_drop]
        omega
      rw [List.take_add, body.withTrailing_gather h hd ho, Nat.add_assoc]

theorem Body.withTrailing_of_size_eq_zero (b : Body) {layout : TrailingLayout}
    (h : layout.size = 0) (r : TrailingRegister) : b.withTrailing layout r = b := by
  obtain ⟨displacement, operand⟩ := layout
  cases displacement <;> cases operand <;> first | rfl | cases h

namespace Decoder

variable {d : Decoder}

theorem decode_trailing {body : Body} {layout : TrailingLayout} {received missing : Nat}
    {register : TrailingRegister} (hphase : d.phase = .trailing body layout received register)
    (hsize : layout.size = received + missing + 1) (bytes : List UInt8) :
    (d.decode bytes).1 =
      if bytes.length < missing + 1 then .needMore (missing + 1 - bytes.length)
      else
        .complete (d.consumed + (missing + 1))
          { toPrefixes := d.prefixes
            toBody := body.withTrailing layout
              ((bytes.take (missing + 1)).foldl push register) } := by
  -- The layout stays, but what has been received and what is missing of it change with each byte.
  induction bytes generalizing d received missing register with
  | nil => simp [shortfall, hphase, hsize, Nat.add_assoc]
  | cons byte bytes ih =>
      rw [decode_cons_fst, step, hphase]
      dsimp only
      rw [stepTrailing]
      cases missing with
      | zero =>
          have hlast : ¬ received + 1 < layout.size := by omega
          simp [hlast]
      | succ missing =>
          have hmore : received + 1 < layout.size := by omega
          have hsize' : layout.size = received + 1 + missing + 1 := by omega
          rw [if_pos hmore, answer_enter, ih rfl hsize']
          simp only [List.length_cons, Nat.add_lt_add_iff_right, Nat.add_sub_add_right,
            List.take_succ_cons, List.foldl_cons]
          rw [Nat.add_assoc, Nat.add_comm 1]

theorem answer_awaitTrailing (d : Decoder) (body : Body) (layout : TrailingLayout)
    (bytes : List UInt8) :
    (d.awaitTrailing body layout).answer bytes =
      settledAnswer d.prefixes (d.consumed + 1) body layout bytes := by
  unfold awaitTrailing settledAnswer
  cases hsize : layout.size with
  | zero =>
      rw [if_pos rfl, answer_finish, body.withTrailing_of_size_eq_zero hsize]
      rfl
  | succ missing =>
      have hsize' : layout.size = 0 + missing + 1 := by omega
      rw [if_neg (Nat.succ_ne_zero _), answer_enter, decode_trailing rfl hsize']
      rfl

end Decoder

/-! ## The opcode -/

/-- An opcode: a byte of its own, or one after `0F`. -/
inductive Opcode where
  | primary (byte : UInt8)
  | secondary (byte : UInt8)
  deriving DecidableEq, Repr

namespace Opcode

def bytes : Opcode → List UInt8
  | primary byte => [byte]
  | secondary byte => [0x0F, byte]

def lastByte : Opcode → UInt8
  | primary byte | secondary byte => byte

def shape : Opcode → OpcodeShape
  | primary byte => (OpcodeMap.primary byte).shape
  | secondary byte => (OpcodeMap.secondary byte).shape

/-- The model has instructions with this opcode. -/
def IsLegal (model : Model) : Opcode → Prop
  | primary byte => IsKnown model byte ∧ byte ∉ prefixBytes ∧ byte ≠ 0x0F
  | secondary byte => IsKnown model 0x0F ∧ byte ∈ secondaryOpcodes

instance (model : Model) (opcode : Opcode) : Decidable (opcode.IsLegal model) := by
  cases opcode <;> exact inferInstanceAs (Decidable (_ ∧ _))

theorem isLegal_of_shape {model : Model} {byte : UInt8} (hknown : IsKnown model byte)
    (hnone : modifier? byte = none) (hescape : (OpcodeMap.primary byte).shape ≠ .escape) :
    (primary byte).IsLegal model := by
  refine ⟨hknown, fun hbyte => ?_, fun hbyte => hescape ((shape_eq_escape_iff byte).mpr hbyte)⟩
  have hmodifier := (isSome_modifier?_iff byte).mpr hbyte
  rw [hnone] at hmodifier
  cases hmodifier

/-- An opcode that the model has says it all, or an addressing byte follows. -/
theorem IsLegal.shape_cases {model : Model} {opcode : Opcode} (h : opcode.IsLegal model) :
    (∃ body layout, opcode.shape = .fixed body layout) ∨
      ∃ form width, opcode.shape = .modRm form width := by
  cases opcode with
  | primary byte =>
      have hundefined := shape_eq_undefined_iff byte
      have hmodifier := isSome_modifier?_iff byte
      have hescape := shape_eq_escape_iff byte
      obtain ⟨⟨hassigned, -⟩, hprefix, hne⟩ := h
      rw [shape]
      cases hshape : (OpcodeMap.primary byte).shape with
      | undefined => exact absurd (hundefined.mp hshape) hassigned
      | prefixByte p =>
          rw [modifier?, hshape] at hmodifier
          exact absurd (hmodifier.mp rfl) hprefix
      | escape => exact absurd (hescape.mp hshape) hne
      | fixed body layout => exact .inl ⟨body, layout, rfl⟩
      | modRm form width => exact .inr ⟨form, width, rfl⟩
  | secondary byte =>
      have hforms := (secondary_form_iff byte).2.2
      have hundefined := (secondary_isLegalOn byte).1.mpr h.2
      rw [shape]
      cases hshape : (OpcodeMap.secondary byte).shape with
      | undefined => exact absurd hshape hundefined
      | prefixByte p => simp [hshape] at hforms
      | escape => simp [hshape] at hforms
      | fixed body layout => exact .inl ⟨body, layout, rfl⟩
      | modRm form width => exact .inr ⟨form, width, rfl⟩

end Opcode

namespace Decoder

variable {d : Decoder} {opcode : Opcode}

def atLastByte (d : Decoder) : Opcode → Decoder
  | .primary _ => d
  | .secondary _ => { d with phase := .secondary, consumed := d.consumed + 1 }

@[simp] theorem model_atLastByte (opcode : Opcode) :
    (d.atLastByte opcode).model = d.model := by
  cases opcode <;> rfl

@[simp] theorem prefixes_atLastByte : (d.atLastByte opcode).prefixes = d.prefixes := by
  cases opcode <;> rfl

theorem consumed_atLastByte :
    (d.atLastByte opcode).consumed + 1 = d.consumed + opcode.bytes.length := by
  cases opcode <;> rfl

/-- The last byte of an opcode settles all, or leaves it to an addressing byte. -/
theorem step_atLastByte (hphase : d.phase = .opcode) (hlegal : opcode.IsLegal d.model) :
    (d.atLastByte opcode).step opcode.lastByte =
      match opcode.shape with
      | .fixed body layout => (d.atLastByte opcode).awaitTrailing body layout
      | .modRm form width => (d.atLastByte opcode).enter (.modRm form width)
      | _ => (d.atLastByte opcode).refuse := by
  cases opcode with
  | primary byte =>
      rw [atLastByte, Opcode.lastByte, step, hphase]
      dsimp only
      rw [stepOpcode_of_isKnown hlegal.1]
      rcases hlegal.shape_cases with ⟨body, layout, hshape⟩ | ⟨form, width, hshape⟩
      · rw [hshape, show (OpcodeMap.primary byte).shape = _ from hshape]
      · rw [hshape, show (OpcodeMap.primary byte).shape = _ from hshape]
  | secondary byte =>
      have hsecond := (secondary_ofModel_iff d.model byte).mpr hlegal
      rw [atLastByte, Opcode.lastByte, step]
      dsimp only
      rw [stepSecondary, hsecond, Opcode.shape]
      cases (OpcodeMap.secondary byte).shape <;> rfl

theorem step_escape (hphase : d.phase = .opcode) (hescape : IsKnown d.model 0x0F) :
    d.step 0x0F = d.enter .secondary := by
  have hshape : (OpcodeMap.primary 0x0F).shape = .escape := rfl
  rw [step, hphase]
  dsimp only
  rw [stepOpcode_of_isKnown hescape, hshape]

theorem decode_opcode (hphase : d.phase = .opcode) (hlegal : opcode.IsLegal d.model)
    (bytes : List UInt8) :
    (d.decode (opcode.bytes ++ bytes)).1 =
      (match opcode.shape with
      | .fixed body layout => (d.atLastByte opcode).awaitTrailing body layout
      | .modRm form width => (d.atLastByte opcode).enter (.modRm form width)
      | _ => (d.atLastByte opcode).refuse).answer bytes := by
  rw [← step_atLastByte hphase hlegal]
  cases opcode with
  | primary byte => exact d.decode_cons_fst byte bytes
  | secondary byte =>
      rw [Opcode.bytes, List.cons_append, List.singleton_append, decode_cons_fst,
        step_escape hphase hlegal.1, answer_enter, decode_cons_fst]
      rfl

/-- The bytes from the opcode to the trailing bytes settle everything else: the instruction, but for
its displacement and operand, and the layout of the bytes that bring these. -/
inductive Settles (d : Decoder) : List UInt8 → Body → TrailingLayout → Prop
  | fixed {opcode : Opcode} {body : Body} {layout : TrailingLayout}
      (hlegal : opcode.IsLegal d.model) (hshape : opcode.shape = .fixed body layout) :
      Settles d opcode.bytes body layout
  | addressed {opcode : Opcode} {form : ModRmForm} {width : Width} {byte : UInt8} {body : Body}
      {layout : TrailingLayout} (hlegal : opcode.IsLegal d.model)
      (hshape : opcode.shape = .modRm form width)
      (hresolve : (ModRm.ofByte byte).resolve? d.model form width = some (body, layout))
      (hsib : d.takesScaleIndexBase (.ofByte byte) = false) :
      Settles d (opcode.bytes ++ [byte]) body layout
  | scaled {opcode : Opcode} {form : ModRmForm} {width : Width} {byte sib : UInt8} {body : Body}
      {layout : TrailingLayout} (hlegal : opcode.IsLegal d.model)
      (hshape : opcode.shape = .modRm form width)
      (hresolve : (ModRm.ofByte byte).resolve? d.model form width = some (body, layout))
      (hsib : d.takesScaleIndexBase (.ofByte byte) = true) :
      Settles d (opcode.bytes ++ [byte, sib]) body layout

theorem answer_enter_modRm {e : Decoder} {form : ModRmForm} {width : Width} {byte : UInt8}
    {body : Body} {layout : TrailingLayout}
    (hresolve : (ModRm.ofByte byte).resolve? e.model form width = some (body, layout))
    (bytes : List UInt8) :
    (e.enter (.modRm form width)).answer (byte :: bytes) =
      if e.takesScaleIndexBase (.ofByte byte) then
        ({ e with consumed := e.consumed + 1 }.enter (.scaleIndexBase body layout)).answer bytes
      else settledAnswer e.prefixes (e.consumed + 2) body layout bytes := by
  have hwide : { e with phase := .modRm form width, consumed := e.consumed + 1 }.takesScaleIndexBase
      (.ofByte byte) = e.takesScaleIndexBase (.ofByte byte) := rfl
  rw [answer_enter, decode_cons_fst, step]
  dsimp only
  rw [stepModRm, hresolve]
  dsimp only
  rw [hwide]
  split
  · rfl
  · exact answer_awaitTrailing _ body layout bytes

theorem answer_enter_scaleIndexBase {e : Decoder} {body : Body} {layout : TrailingLayout}
    (byte : UInt8) (bytes : List UInt8) :
    (e.enter (.scaleIndexBase body layout)).answer (byte :: bytes) =
      settledAnswer e.prefixes (e.consumed + 2) body layout bytes := by
  rw [answer_enter, decode_cons_fst]
  exact answer_awaitTrailing _ body layout bytes

theorem Settles.decode_append {head : List UInt8} {body : Body} {layout : TrailingLayout}
    (h : d.Settles head body layout) (hphase : d.phase = .opcode) (bytes : List UInt8) :
    (d.decode (head ++ bytes)).1 =
      settledAnswer d.prefixes (d.consumed + head.length) body layout bytes := by
  have hwide (opcode : Opcode) (m : ModRm) :
      (d.atLastByte opcode).takesScaleIndexBase m = d.takesScaleIndexBase m := by
    rw [takesScaleIndexBase, takesScaleIndexBase, prefixes_atLastByte]
  cases h with
  | fixed hlegal hshape =>
      rw [decode_opcode hphase hlegal, hshape, ← consumed_atLastByte, ← prefixes_atLastByte]
      exact answer_awaitTrailing _ body layout bytes
  | @addressed opcode _ _ _ _ _ hlegal hshape hresolve hsib =>
      rw [← model_atLastByte opcode] at hresolve
      rw [List.append_assoc, decode_opcode hphase hlegal, hshape, List.length_append,
        ← Nat.add_assoc, ← consumed_atLastByte, ← prefixes_atLastByte]
      refine (answer_enter_modRm hresolve bytes).trans ?_
      rw [hwide, hsib, if_neg Bool.false_ne_true]
      rfl
  | @scaled opcode _ _ _ _ _ _ hlegal hshape hresolve hsib =>
      rw [← model_atLastByte opcode] at hresolve
      rw [List.append_assoc, decode_opcode hphase hlegal, hshape, List.length_append,
        ← Nat.add_assoc, ← consumed_atLastByte, ← prefixes_atLastByte]
      refine (answer_enter_modRm hresolve _).trans ?_
      rw [hwide, hsib, if_pos rfl]
      exact answer_enter_scaleIndexBase _ bytes

end Decoder

theorem decodeOne_of_settles {model : Model} {run head : List UInt8} {body : Body}
    {layout : TrailingLayout} (hrun : ∀ byte ∈ run, IsPrefix model byte)
    (hlength : run.length ≤ 14) (h : ((Decoder.new model).passing run).Settles head body layout)
    (bytes : List UInt8) :
    decodeOne model (run ++ (head ++ bytes)) =
      settledAnswer (.ofRun run) (run.length + head.length) body layout bytes := by
  rw [decodeOne, Decoder.decode_new_run hrun hlength, h.decode_append rfl,
    Decoder.prefixes_passing_new, Decoder.consumed_passing_new]

end Iapx86
