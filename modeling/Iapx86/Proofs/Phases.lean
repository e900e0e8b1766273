import Iapx86.Decoder
import Iapx86.Proofs.Opcodes

/-!
# What a decoder does in each phase

One lemma for each thing that can happen to a byte before the opcode, after `0F` and at the
addressing byte, with the kind of byte given by its number. The bytes before the opcode are taken
together: a run of them that leaves room for an opcode only moves the decoder on (`decode_run`),
and a longer one is refused at its fifteenth byte (`answer_run_of_length`). `Phase.Leads` says which
phase can follow on which, and `Phase.Yields` which instruction can end it; what a phase tells of
the bytes before it is proved along these.
-/

namespace Iapx86

open Opcode

/-- What is answered if the bytes follow a step. -/
def StepResult.answer : StepResult → List UInt8 → DecodeResult
  | complete length i, _ => .complete length i
  | pending d, bytes => (d.decode bytes).1

/-- What a byte before the opcode adds to those before it. -/
def Prefixes.modifiedBy (p : Prefixes) (byte : UInt8) : Prefixes :=
  (modifier? byte).elim p (·.apply p)

namespace Decoder

theorem decode_cons_fst (d : Decoder) (byte : UInt8) (bytes : List UInt8) :
    (d.decode (byte :: bytes)).1 = (d.step byte).answer bytes := by
  rw [decode_cons]
  cases d.step byte <;> rfl

@[simp] theorem answer_refuse (d : Decoder) (bytes : List UInt8) :
    d.refuse.answer bytes = .complete (d.consumed + 1) .undefined := rfl

@[simp] theorem answer_finish (d : Decoder) (body : Body) (bytes : List UInt8) :
    (d.finish body).answer bytes =
      .complete (d.consumed + 1) { toPrefixes := d.prefixes, toBody := body } := rfl

@[simp] theorem answer_enter (d : Decoder) (phase : Phase) (bytes : List UInt8) :
    (d.enter phase).answer bytes =
      ({ d with phase, consumed := d.consumed + 1 }.decode bytes).1 := rfl

/-! ## Before the opcode -/

theorem stepOpcode_of_not_isKnown {d : Decoder} {byte : UInt8} (h : ¬ IsKnown d.model byte) :
    d.stepOpcode byte = d.refuse := by
  rw [← primary_ofModel_iff, Bool.not_eq_true] at h
  rw [stepOpcode, h]
  rfl

theorem stepOpcode_of_isKnown {d : Decoder} {byte : UInt8} (h : IsKnown d.model byte) :
    d.stepOpcode byte =
      match (OpcodeMap.primary byte).shape with
      | .undefined => d.refuse
      | .prefixByte p =>
          if d.consumed + 1 ≥ maxLength then d.refuse
          else { d with prefixes := p.apply d.prefixes }.enter .opcode
      | .escape => d.enter .secondary
      | .fixed body layout => d.awaitTrailing body layout
      | .modRm form width => d.enter (.modRm form width) := by
  rw [← primary_ofModel_iff] at h
  rw [stepOpcode, h]
  rfl

/-- The decoder after a run of bytes before the opcode. -/
def passing (d : Decoder) (run : List UInt8) : Decoder :=
  { d with
    prefixes := run.foldl Prefixes.modifiedBy d.prefixes
    consumed := d.consumed + run.length }

theorem passing_cons (d : Decoder) (byte : UInt8) (run : List UInt8) :
    d.passing (byte :: run) = (d.passing [byte]).passing run := by
  simp only [passing, List.foldl_cons, List.foldl_nil, List.length_cons, List.length_nil]
  rw [Nat.zero_add, Nat.add_assoc, Nat.add_comm 1]

theorem step_of_isPrefix {d : Decoder} (hphase : d.phase = .opcode) {byte : UInt8}
    (h : IsPrefix d.model byte) :
    d.step byte =
      if d.consumed + 1 ≥ maxLength then d.refuse else .pending (d.passing [byte]) := by
  have hmodifier := (isSome_modifier?_iff byte).mpr h.1
  rw [step, hphase]
  dsimp only
  rw [stepOpcode_of_isKnown h.isKnown]
  unfold passing Prefixes.modifiedBy
  unfold modifier? at hmodifier ⊢
  cases hshape : (OpcodeMap.primary byte).shape with
  | prefixByte p => simp [hphase, enter, hshape]
  | undefined => simp [hshape] at hmodifier
  | escape => simp [hshape] at hmodifier
  | fixed body layout => simp [hshape] at hmodifier
  | modRm form width => simp [hshape] at hmodifier

/-- A run of bytes before the opcode is passed, if it leaves room for an opcode. -/
theorem decode_run {d : Decoder} (hphase : d.phase = .opcode) {run : List UInt8}
    (hrun : ∀ byte ∈ run, IsPrefix d.model byte) (hroom : d.consumed + run.length < maxLength)
    (rest : List UInt8) : d.decode (run ++ rest) = (d.passing run).decode rest := by
  induction run generalizing d with
  | nil => rfl
  | cons byte run ih =>
      have hbyte := hrun byte List.mem_cons_self
      have hrest : ∀ b ∈ run, IsPrefix (d.passing [byte]).model b :=
        fun b hb => hrun b (List.mem_cons_of_mem _ hb)
      have hconsumed : (d.passing [byte]).consumed = d.consumed + 1 := rfl
      rw [List.length_cons] at hroom
      rw [List.cons_append, decode_cons, step_of_isPrefix hphase hbyte, if_neg (by omega),
        passing_cons d byte run]
      exact ih hphase hrest (by omega)

/-- A run of bytes before the opcode that leaves no room for one is refused. -/
theorem answer_run_of_length {d : Decoder} (hphase : d.phase = .opcode)
    (hconsumed : d.consumed < maxLength) {run : List UInt8}
    (hrun : ∀ byte ∈ run, IsPrefix d.model byte) (hlong : maxLength ≤ d.consumed + run.length)
    (rest : List UInt8) : (d.decode (run ++ rest)).1 = .complete maxLength .undefined := by
  induction run generalizing d with
  | nil =>
      rw [List.length_nil] at hlong
      omega
  | cons byte run ih =>
      have hbyte := hrun byte List.mem_cons_self
      have hrest : ∀ b ∈ run, IsPrefix (d.passing [byte]).model b :=
        fun b hb => hrun b (List.mem_cons_of_mem _ hb)
      have hnext : (d.passing [byte]).consumed = d.consumed + 1 := rfl
      rw [List.length_cons] at hlong
      rw [List.cons_append, decode_cons_fst, step_of_isPrefix hphase hbyte]
      split
      · next hfull =>
          rw [answer_refuse, show d.consumed + 1 = maxLength by omega]
      · next hroom =>
          exact ih hphase (by omega) hrest (by omega)

end Decoder

/-! ## From phase to phase -/

/-- The phase that a byte leads to, when the instruction goes on after it. -/
inductive Phase.Leads (model : Model) : Phase → UInt8 → Phase → Prop
  | pass {byte : UInt8} {p : PrefixByte} (hknown : IsKnown model byte)
      (hshape : (OpcodeMap.primary byte).shape = .prefixByte p) : Leads model .opcode byte .opcode
  | escape {byte : UInt8} (hknown : IsKnown model byte)
      (hshape : (OpcodeMap.primary byte).shape = .escape) : Leads model .opcode byte .secondary
  | fixed {byte : UInt8} {body : Body} {layout : TrailingLayout} (hknown : IsKnown model byte)
      (hshape : (OpcodeMap.primary byte).shape = .fixed body layout) (hsize : layout.size ≠ 0) :
      Leads model .opcode byte (.trailing body layout 0 {})
  | addressed {byte : UInt8} {form : ModRmForm} {width : Width} (hknown : IsKnown model byte)
      (hshape : (OpcodeMap.primary byte).shape = .modRm form width) :
      Leads model .opcode byte (.modRm form width)
  | secondaryFixed {byte : UInt8} {body : Body} {layout : TrailingLayout}
      (hshape : (OpcodeMap.secondary byte).shape = .fixed body layout) (hsize : layout.size ≠ 0) :
      Leads model .secondary byte (.trailing body layout 0 {})
  | secondaryAddressed {byte : UInt8} {form : ModRmForm} {width : Width}
      (hshape : (OpcodeMap.secondary byte).shape = .modRm form width) :
      Leads model .secondary byte (.modRm form width)
  | scaled {byte : UInt8} {form : ModRmForm} {width : Width} {body : Body}
      {layout : TrailingLayout}
      (hresolve : (ModRm.ofByte byte).resolve? model form width = some (body, layout)) :
      Leads model (.modRm form width) byte (.scaleIndexBase body layout)
  | resolved {byte : UInt8} {form : ModRmForm} {width : Width} {body : Body}
      {layout : TrailingLayout}
      (hresolve : (ModRm.ofByte byte).resolve? model form width = some (body, layout))
      (hsize : layout.size ≠ 0) : Leads model (.modRm form width) byte (.trailing body layout 0 {})
  | skipped {byte : UInt8} {body : Body} {layout : TrailingLayout} (hsize : layout.size ≠ 0) :
      Leads model (.scaleIndexBase body layout) byte (.trailing body layout 0 {})
  | gathered {byte : UInt8} {body : Body} {layout : TrailingLayout} {received : Nat}
      {register : TrailingRegister} (hmore : received + 1 < layout.size) :
      Leads model (.trailing body layout received register) byte
        (.trailing body layout (received + 1) (register.push byte))

namespace Decoder

variable {d d' : Decoder} {byte : UInt8}

theorem awaitTrailing_eq_pending {body : Body} {layout : TrailingLayout}
    (h : d.awaitTrailing body layout = .pending d') :
    layout.size ≠ 0 ∧ d'.model = d.model ∧ d'.phase = .trailing body layout 0 {} := by
  unfold awaitTrailing at h
  split at h
  · cases h
  · next hsize =>
      cases h
      exact ⟨hsize, rfl, rfl⟩

theorem stepOpcode_eq_pending (h : d.stepOpcode byte = .pending d') :
    d'.model = d.model ∧ Phase.Leads d.model .opcode byte d'.phase := by
  by_cases hknown : IsKnown d.model byte
  · rw [stepOpcode_of_isKnown hknown] at h
    cases hshape : (OpcodeMap.primary byte).shape with
    | undefined =>
        rw [hshape] at h
        cases h
    | prefixByte p =>
        rw [hshape] at h
        dsimp only at h
        split at h
        · cases h
        · cases h
          exact ⟨rfl, .pass hknown hshape⟩
    | escape =>
        rw [hshape] at h
        cases h
        exact ⟨rfl, .escape hknown hshape⟩
    | fixed body layout =>
        rw [hshape] at h
        obtain ⟨hsize, hmodel, hphase⟩ := awaitTrailing_eq_pending h
        exact ⟨hmodel, hphase ▸ .fixed hknown hshape hsize⟩
    | modRm form width =>
        rw [hshape] at h
        cases h
        exact ⟨rfl, .addressed hknown hshape⟩
  · rw [stepOpcode_of_not_isKnown hknown] at h
    cases h

theorem stepSecondary_eq_pending (h : d.stepSecondary byte = .pending d') :
    d'.model = d.model ∧ Phase.Leads d.model .secondary byte d'.phase := by
  unfold stepSecondary at h
  split at h
  · cases h
  · cases hshape : (OpcodeMap.secondary byte).shape with
    | undefined | prefixByte p | escape =>
        rw [hshape] at h
        cases h
    | fixed body layout =>
        rw [hshape] at h
        obtain ⟨hsize, hmodel, hphase⟩ := awaitTrailing_eq_pending h
        exact ⟨hmodel, hphase ▸ .secondaryFixed hshape hsize⟩
    | modRm form width =>
        rw [hshape] at h
        cases h
        exact ⟨rfl, .secondaryAddressed hshape⟩

theorem stepModRm_eq_pending {form : ModRmForm} {width : Width}
    (h : d.stepModRm form width byte = .pending d') :
    d'.model = d.model ∧ Phase.Leads d.model (.modRm form width) byte d'.phase := by
  unfold stepModRm at h
  dsimp only at h
  cases hresolve : (ModRm.ofByte byte).resolve? d.model form width with
  | none =>
      rw [hresolve] at h
      cases h
  | some resolved =>
      rw [hresolve] at h
      dsimp only at h
      split at h
      · cases h
        exact ⟨rfl, .scaled hresolve⟩
      · obtain ⟨hsize, hmodel, hphase⟩ := awaitTrailing_eq_pending h
        exact ⟨hmodel, hphase ▸ .resolved hresolve hsize⟩

/-- A decoder stays with its model, and the next phase is one that the byte leads to. -/
theorem step_eq_pending (h : d.step byte = .pending d') :
    d'.model = d.model ∧ d.phase.Leads d.model byte d'.phase := by
  rw [step] at h
  cases hphase : d.phase with
  | opcode =>
      rw [hphase] at h
      exact stepOpcode_eq_pending h
  | secondary =>
      rw [hphase] at h
      exact stepSecondary_eq_pending h
  | modRm form width =>
      rw [hphase] at h
      exact stepModRm_eq_pending h
  | scaleIndexBase body layout =>
      rw [hphase] at h
      obtain ⟨hsize, hmodel, hnext⟩ := awaitTrailing_eq_pending h
      exact ⟨hmodel, hnext ▸ .skipped hsize⟩
  | trailing body layout received register =>
      rw [hphase] at h
      dsimp only at h
      unfold stepTrailing at h
      dsimp only at h
      split at h
      · next hmore =>
          cases h
          exact ⟨rfl, .gathered hmore⟩
      · cases h

end Decoder

/-- The instruction that a byte completes, but for what the bytes before the opcode ask for. -/
inductive Phase.Yields (model : Model) : Phase → UInt8 → Body → Prop
  | fixed {byte : UInt8} {body : Body} {layout : TrailingLayout} (hknown : IsKnown model byte)
      (hshape : (OpcodeMap.primary byte).shape = .fixed body layout) (hsize : layout.size = 0) :
      Yields model .opcode byte body
  | secondaryFixed {byte : UInt8} {body : Body} {layout : TrailingLayout}
      (hshape : (OpcodeMap.secondary byte).shape = .fixed body layout) (hsize : layout.size = 0) :
      Yields model .secondary byte body
  | resolved {byte : UInt8} {form : ModRmForm} {width : Width} {body : Body}
      {layout : TrailingLayout}
      (hresolve : (ModRm.ofByte byte).resolve? model form width = some (body, layout))
      (hsize : layout.size = 0) : Yields model (.modRm form width) byte body
  | skipped {byte : UInt8} {body : Body} {layout : TrailingLayout} (hsize : layout.size = 0) :
      Yields model (.scaleIndexBase body layout) byte body
  | gathered {byte : UInt8} {body : Body} {layout : TrailingLayout} {received : Nat}
      {register : TrailingRegister} (hlast : layout.size ≤ received + 1) :
      Yields model (.trailing body layout received register) byte
        (body.withTrailing layout (register.push byte))

namespace Decoder

variable {d : Decoder} {byte : UInt8} {length : Nat} {i : Instruction}

theorem awaitTrailing_eq_complete {body : Body} {layout : TrailingLayout}
    (h : d.awaitTrailing body layout = .complete length i) :
    layout.size = 0 ∧ i = { toPrefixes := d.prefixes, toBody := body } := by
  unfold awaitTrailing at h
  split at h
  · next hsize =>
      cases h
      exact ⟨hsize, rfl⟩
  · cases h

theorem stepOpcode_eq_complete (h : d.stepOpcode byte = .complete length i) :
    i = .undefined ∨ i.toPrefixes = d.prefixes ∧ Phase.Yields d.model .opcode byte i.toBody := by
  by_cases hknown : IsKnown d.model byte
  · rw [stepOpcode_of_isKnown hknown] at h
    cases hshape : (OpcodeMap.primary byte).shape with
    | undefined =>
        rw [hshape] at h
        cases h
        exact .inl rfl
    | prefixByte p =>
        rw [hshape] at h
        dsimp only at h
        split at h
        · cases h
          exact .inl rfl
        · cases h
    | escape =>
        rw [hshape] at h
        cases h
    | fixed body layout =>
        rw [hshape] at h
        obtain ⟨hsize, rfl⟩ := awaitTrailing_eq_complete h
        exact .inr ⟨rfl, .fixed hknown hshape hsize⟩
    | modRm form width =>
        rw [hshape] at h
        cases h
  · rw [stepOpcode_of_not_isKnown hknown] at h
    cases h
    exact .inl rfl

theorem stepSecondary_eq_complete (h : d.stepSecondary byte = .complete length i) :
    i = .undefined ∨ i.toPrefixes = d.prefixes ∧ Phase.Yields d.model .secondary byte i.toBody := by
  unfold stepSecondary at h
  split at h
  · cases h
    exact .inl rfl
  · cases hshape : (OpcodeMap.secondary byte).shape with
    | undefined | prefixByte p | escape =>
        rw [hshape] at h
        cases h
        exact .inl rfl
    | fixed body layout =>
        rw [hshape] at h
        obtain ⟨hsize, rfl⟩ := awaitTrailing_eq_complete h
        exact .inr ⟨rfl, .secondaryFixed hshape hsize⟩
    | modRm form width =>
        rw [hshape] at h
        cases h

theorem stepModRm_eq_complete {form : ModRmForm} {width : Width}
    (h : d.stepModRm form width byte = .complete length i) :
    i = .undefined ∨
      i.toPrefixes = d.prefixes ∧ Phase.Yields d.model (.modRm form width) byte i.toBody := by
  unfold stepModRm at h
  dsimp only at h
  cases hresolve : (ModRm.ofByte byte).resolve? d.model form width with
  | none =>
      rw [hresolve] at h
      cases h
      exact .inl rfl
  | some resolved =>
      rw [hresolve] at h
      dsimp only at h
      split at h
      · cases h
      · obtain ⟨hsize, rfl⟩ := awaitTrailing_eq_complete h
        exact .inr ⟨rfl, .resolved hresolve hsize⟩

/-- A byte that ends an instruction completes it or refutes that there is one. -/
theorem step_eq_complete (h : d.step byte = .complete length i) :
    i = .undefined ∨ i.toPrefixes = d.prefixes ∧ d.phase.Yields d.model byte i.toBody := by
  rw [step] at h
  cases hphase : d.phase with
  | opcode =>
      rw [hphase] at h
      exact stepOpcode_eq_complete h
  | secondary =>
      rw [hphase] at h
      exact stepSecondary_eq_complete h
  | modRm form width =>
      rw [hphase] at h
      exact stepModRm_eq_complete h
  | scaleIndexBase body layout =>
      rw [hphase] at h
      obtain ⟨hsize, rfl⟩ := awaitTrailing_eq_complete h
      exact .inr ⟨rfl, .skipped hsize⟩
  | trailing body layout received register =>
      rw [hphase] at h
      dsimp only at h
      unfold stepTrailing at h
      dsimp only at h
      split at h
      · cases h
      · next hlast =>
          cases h
          exact .inr ⟨rfl, .gathered (Nat.le_of_not_lt hlast)⟩

end Decoder

end Iapx86
