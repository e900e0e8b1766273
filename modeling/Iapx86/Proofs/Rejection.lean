import Iapx86.Proofs.Addressing
import Iapx86.Proofs.Phases
import Mathlib.Data.List.TakeWhile

/-!
# The encodings that are refused

`Rejected model bytes length` is the rule by which manuals refuse machine code, in the order in
which its bytes come: too many bytes before the opcode, an opcode that the model does not have, a
byte after `0F` that continues nothing, and an addressing byte that the opcode does not go with. The
length tells the byte that is at fault.

The decoder follows this rule. Going from the end to the beginning, each phase is shown to give an
undefined instruction only where the rule says so: never once the addressing byte is accepted
(`operation_of_decode_complete`), and before that at the byte in question.
-/

namespace Iapx86

open Opcode

/-- The longest run of bytes at the beginning that stand before an opcode. -/
def prefixRun (model : Model) (bytes : List UInt8) : List UInt8 :=
  bytes.takeWhile (IsPrefix model ·)

/-- The bytes from the opcode on. -/
def afterPrefixRun (model : Model) (bytes : List UInt8) : List UInt8 :=
  bytes.dropWhile (IsPrefix model ·)

/-- The bytes begin with an encoding that is refused at its last byte, and it is this long. -/
inductive Rejected (model : Model) (bytes : List UInt8) : Nat → Prop
  | longRun (hrun : 15 ≤ (prefixRun model bytes).length) : Rejected model bytes 15
  | unknownOpcode {opcode : UInt8} {rest : List UInt8}
      (hrun : (prefixRun model bytes).length ≤ 14)
      (hrest : afterPrefixRun model bytes = opcode :: rest) (hopcode : ¬ IsKnown model opcode) :
      Rejected model bytes ((prefixRun model bytes).length + 1)
  | unknownSecondary {opcode : UInt8} {rest : List UInt8}
      (hrun : (prefixRun model bytes).length ≤ 14)
      (hrest : afterPrefixRun model bytes = 0x0F :: opcode :: rest)
      (hescape : IsKnown model 0x0F) (hopcode : opcode ∉ secondaryOpcodes) :
      Rejected model bytes ((prefixRun model bytes).length + 2)
  | addressing {opcode byte : UInt8} {rest : List UInt8}
      (hrun : (prefixRun model bytes).length ≤ 14)
      (hrest : afterPrefixRun model bytes = opcode :: byte :: rest)
      (hopcode : IsKnown model opcode)
      (hrefuses : RefusesAddressing model opcode (.ofByte byte)) :
      Rejected model bytes ((prefixRun model bytes).length + 2)
  | secondaryAddressing {opcode byte : UInt8} {rest : List UInt8}
      (hrun : (prefixRun model bytes).length ≤ 14)
      (hrest : afterPrefixRun model bytes = 0x0F :: opcode :: byte :: rest)
      (hescape : IsKnown model 0x0F)
      (hrefuses : RefusesSecondaryAddressing opcode (.ofByte byte)) :
      Rejected model bytes ((prefixRun model bytes).length + 3)

/-- The same of the bytes from the opcode on, behind so many others. -/
def RejectedFrom (model : Model) (before : Nat) (bytes : List UInt8) (length : Nat) : Prop :=
  ∃ opcode rest, bytes = opcode :: rest ∧
    (¬ IsKnown model opcode ∧ length = before + 1 ∨
      opcode = 0x0F ∧ IsKnown model 0x0F ∧ (∃ second rest', rest = second :: rest' ∧
        (second ∉ secondaryOpcodes ∧ length = before + 2 ∨
          ∃ byte rest'', rest' = byte :: rest'' ∧
            RefusesSecondaryAddressing second (.ofByte byte) ∧ length = before + 3)) ∨
      IsKnown model opcode ∧ ∃ byte rest', rest = byte :: rest' ∧
        RefusesAddressing model opcode (.ofByte byte) ∧ length = before + 2)

theorem rejected_iff_of_long {model : Model} {bytes : List UInt8} {length : Nat}
    (hlong : 15 ≤ (prefixRun model bytes).length) :
    Rejected model bytes length ↔ length = 15 := by
  constructor
  · intro h
    cases h with
    | longRun hrun => rfl
    | unknownOpcode hshort => omega
    | unknownSecondary hshort => omega
    | addressing hshort => omega
    | secondaryAddressing hshort => omega
  · rintro rfl
    exact .longRun hlong

theorem rejected_iff_of_short {model : Model} {bytes : List UInt8} {length : Nat}
    (hshort : (prefixRun model bytes).length ≤ 14) :
    Rejected model bytes length ↔
      RejectedFrom model (prefixRun model bytes).length (afterPrefixRun model bytes) length := by
  constructor
  · intro h
    cases h with
    | longRun hlong => omega
    | unknownOpcode _ hrest hopcode => exact ⟨_, _, hrest, .inl ⟨hopcode, rfl⟩⟩
    | unknownSecondary _ hrest hescape hsecond =>
        exact ⟨_, _, hrest, .inr (.inl ⟨rfl, hescape, _, _, rfl, .inl ⟨hsecond, rfl⟩⟩)⟩
    | addressing _ hrest hopcode hbyte =>
        exact ⟨_, _, hrest, .inr (.inr ⟨hopcode, _, _, rfl, hbyte, rfl⟩)⟩
    | secondaryAddressing _ hrest hescape hbyte =>
        exact ⟨_, _, hrest, .inr (.inl ⟨rfl, hescape, _, _, rfl, .inr ⟨_, _, rfl, hbyte, rfl⟩⟩)⟩
  · rintro ⟨opcode, rest, hrest, ⟨hopcode, rfl⟩ |
      ⟨rfl, hescape, second, rest', rfl, ⟨hsecond, rfl⟩ | ⟨byte, rest'', rfl, hbyte, rfl⟩⟩ |
      ⟨hopcode, byte, rest', rfl, hbyte, rfl⟩⟩
    · exact .unknownOpcode hshort hrest hopcode
    · exact .unknownSecondary hshort hrest hescape hsecond
    · exact .secondaryAddressing hshort hrest hescape hbyte
    · exact .addressing hshort hrest hopcode hbyte

/-! ## The phases -/

/-- What the opcode and the addressing byte have settled, once they are through. -/
def Phase.body? : Phase → Option Body
  | scaleIndexBase body _ | trailing body _ _ _ => some body
  | opcode | secondary | modRm _ _ => none

namespace Decoder

/-- The bytes after the addressing byte do not change the operation. -/
theorem operation_of_step {d : Decoder} {body : Body} (hbody : d.phase.body? = some body)
    (byte : UInt8) :
    (∃ body', body'.operation = body.operation ∧ d.step byte = d.finish body') ∨
      ∃ phase, phase.body? = some body ∧ d.step byte = d.enter phase := by
  cases hphase : d.phase with
  | opcode => simp [hphase, Phase.body?] at hbody
  | secondary => simp [hphase, Phase.body?] at hbody
  | modRm form width => simp [hphase, Phase.body?] at hbody
  | scaleIndexBase settled layout =>
      rw [hphase] at hbody
      cases hbody
      rw [step, hphase]
      dsimp only
      unfold awaitTrailing
      split
      · exact .inl ⟨body, rfl, rfl⟩
      · exact .inr ⟨_, rfl, rfl⟩
  | trailing settled layout received register =>
      rw [hphase] at hbody
      cases hbody
      rw [step, hphase]
      dsimp only
      unfold stepTrailing
      dsimp only
      split
      · exact .inr ⟨_, rfl, rfl⟩
      · exact .inl ⟨_, body.operation_withTrailing layout _, rfl⟩

theorem operation_of_decode_complete {d : Decoder} {body : Body}
    (hbody : d.phase.body? = some body) {bytes : List UInt8} {length : Nat} {i : Instruction}
    (h : (d.decode bytes).1 = .complete length i) : i.operation = body.operation := by
  induction bytes generalizing d with
  | nil => simp at h
  | cons byte bytes ih =>
      rw [decode_cons_fst] at h
      rcases operation_of_step hbody byte with ⟨body', hoperation, hstep⟩ | ⟨phase, hphase, hstep⟩
      · rw [hstep, answer_finish, DecodeResult.complete.injEq] at h
        rw [← h.2, ← hoperation]
      · rw [hstep, answer_enter] at h
        exact ih hphase h

end Decoder

/-- The answer is an undefined instruction of this length. -/
def DecodeResult.Refuses (r : DecodeResult) (length : Nat) (i : Instruction) : Prop :=
  r = .complete length i ∧ i.isUndefined = true

namespace DecodeResult

@[simp] theorem not_refuses_needMore (atLeast length : Nat) (i : Instruction) :
    ¬ (needMore atLeast).Refuses length i := by
  rintro ⟨h, -⟩
  cases h

theorem refuses_undefined_iff {length length' : Nat} {i : Instruction} :
    (complete length' .undefined).Refuses length i ↔ i = .undefined ∧ length = length' := by
  constructor
  · rintro ⟨h, -⟩
    cases h
    exact ⟨rfl, rfl⟩
  · rintro ⟨rfl, rfl⟩
    exact ⟨rfl, rfl⟩

end DecodeResult

namespace Decoder

variable {d : Decoder} {bytes : List UInt8} {length : Nat} {i : Instruction}

theorem not_refuses_of_body {body : Body} (hbody : d.phase.body? = some body)
    (hdefined : body.operation ≠ .undefined) : ¬ (d.decode bytes).1.Refuses length i := by
  rintro ⟨hcomplete, hundefined⟩
  have hoperation := operation_of_decode_complete hbody hcomplete
  exact hdefined (hoperation.symm.trans (of_decide_eq_true hundefined))

theorem not_refuses_awaitTrailing {body : Body} {layout : TrailingLayout}
    (hdefined : body.operation ≠ .undefined) :
    ¬ ((d.awaitTrailing body layout).answer bytes).Refuses length i := by
  unfold awaitTrailing
  split
  · rintro ⟨hcomplete, hundefined⟩
    rw [answer_finish, DecodeResult.complete.injEq] at hcomplete
    rw [← hcomplete.2] at hundefined
    exact hdefined (of_decide_eq_true hundefined)
  · rw [answer_enter]
    exact not_refuses_of_body rfl hdefined

theorem stepModRm_of_refuses {form : ModRmForm} {width : Width} {byte : UInt8}
    (h : form.Refuses d.model (.ofByte byte)) : d.stepModRm form width byte = d.refuse := by
  rw [← ModRm.resolve?_eq_none_iff _ _ width _ (ModRm.reg_ofByte_lt byte)] at h
  rw [stepModRm, h]

theorem not_refuses_stepModRm {form : ModRmForm} {width : Width} {byte : UInt8}
    (hform : form.isDefined) (h : ¬ form.Refuses d.model (.ofByte byte)) :
    ¬ ((d.stepModRm form width byte).answer bytes).Refuses length i := by
  rw [← ModRm.resolve?_eq_none_iff _ _ width _ (ModRm.reg_ofByte_lt byte)] at h
  obtain ⟨⟨body, layout⟩, hresolve⟩ := Option.ne_none_iff_exists'.mp h
  have hdefined := ModRm.operation_of_resolve? hform hresolve
  rw [stepModRm, hresolve]
  dsimp only
  split
  · rw [answer_enter]
    exact not_refuses_of_body rfl hdefined
  · exact not_refuses_awaitTrailing hdefined

/-- Before the addressing byte, only that byte can be refused. -/
theorem refuses_modRm_iff {form : ModRmForm} {width : Width} (hphase : d.phase = .modRm form width)
    (hform : form.isDefined) :
    (d.decode bytes).1.Refuses length i ↔
      i = .undefined ∧ ∃ byte rest, bytes = byte :: rest ∧
        form.Refuses d.model (.ofByte byte) ∧ length = d.consumed + 1 := by
  cases bytes with
  | nil => simp
  | cons byte rest =>
      rw [decode_cons_fst, step, hphase]
      dsimp only
      by_cases h : form.Refuses d.model (.ofByte byte)
      · rw [stepModRm_of_refuses h, answer_refuse, DecodeResult.refuses_undefined_iff]
        simp [h]
      · simp [not_refuses_stepModRm hform h, h]

theorem stepSecondary_of_not_mem {opcode : UInt8} (h : opcode ∉ secondaryOpcodes) :
    d.stepSecondary opcode = d.refuse := by
  have hlegal : (Legality.ofModel d.model).secondary opcode = false := by
    rw [← Bool.not_eq_true, secondary_ofModel_iff]
    exact fun hboth => h hboth.2
  rw [stepSecondary, hlegal]
  rfl

/-- A byte that continues `0F` either leaves nothing to refuse, or the addressing byte. -/
theorem stepSecondary_of_mem (hescape : IsKnown d.model 0x0F) {opcode : UInt8}
    (h : opcode ∈ secondaryOpcodes) :
    (∃ body layout, d.stepSecondary opcode = d.awaitTrailing body layout ∧
      body.operation ≠ .undefined ∧
      ∀ m, ¬ RefusesSecondaryAddressing opcode m) ∨
    ∃ form width, d.stepSecondary opcode = d.enter (.modRm form width) ∧ form.isDefined ∧
      ∀ m, RefusesSecondaryAddressing opcode m ↔ form.Refuses d.model m := by
  have hlegal := (secondary_ofModel_iff d.model opcode).mpr ⟨hescape, h⟩
  have hshape := (secondary_isLegalOn opcode).1.mpr h
  have hdefined := isDefined_secondary opcode
  have hforms := secondary_form_iff opcode
  rw [stepSecondary, hlegal]
  cases hopcode : (OpcodeMap.secondary opcode).shape with
  | undefined => exact absurd hopcode hshape
  | prefixByte p => simp [hopcode] at hforms
  | escape => simp [hopcode] at hforms
  | fixed body layout =>
      refine .inl ⟨body, layout, rfl, ?_, ?_⟩
      · rw [hopcode] at hdefined
        exact of_decide_eq_true hdefined
      · exact fun m => not_refusesSecondaryAddressing (by simp [hopcode])
  | modRm form width =>
      refine .inr ⟨form, width, rfl, ?_, ?_⟩
      · rw [hopcode] at hdefined
        exact hdefined
      · exact fun m => refusesSecondaryAddressing_iff hopcode

/-- After `0F`, the next byte can be refused, and the addressing byte if one follows. -/
theorem refuses_secondary_iff (hphase : d.phase = .secondary) (hescape : IsKnown d.model 0x0F) :
    (d.decode bytes).1.Refuses length i ↔
      i = .undefined ∧ ∃ opcode rest, bytes = opcode :: rest ∧
        (opcode ∉ secondaryOpcodes ∧ length = d.consumed + 1 ∨
          ∃ byte rest', rest = byte :: rest' ∧
            RefusesSecondaryAddressing opcode (.ofByte byte) ∧ length = d.consumed + 2) := by
  cases bytes with
  | nil => simp
  | cons opcode rest =>
      rw [decode_cons_fst, step, hphase]
      dsimp only
      by_cases h : opcode ∈ secondaryOpcodes
      · rcases stepSecondary_of_mem hescape h with ⟨body, layout, hstep, hdefined, hnone⟩ |
          ⟨form, width, hstep, hform, hrefuses⟩
        · simp [hstep, not_refuses_awaitTrailing hdefined, h, hnone]
        · rw [hstep, answer_enter, refuses_modRm_iff rfl hform]
          simp [and_assoc, h, hrefuses]
      · have hnone : ∀ m, ¬ RefusesSecondaryAddressing opcode m :=
          fun m hm => h (mem_of_refusesSecondaryAddressing hm)
        rw [stepSecondary_of_not_mem h, answer_refuse, DecodeResult.refuses_undefined_iff]
        simp [and_assoc, h, hnone]

/-- An opcode that the model knows is `0F`, or leaves nothing to refuse, or leaves the addressing
byte. -/
theorem stepOpcode_of_opcode {opcode : UInt8} (hknown : IsKnown d.model opcode)
    (hopcode : ¬ IsPrefix d.model opcode) :
    (opcode = 0x0F ∧ d.stepOpcode opcode = d.enter .secondary ∧
      ∀ m, ¬ RefusesAddressing d.model opcode m) ∨
    (∃ body layout, d.stepOpcode opcode = d.awaitTrailing body layout ∧ opcode ≠ 0x0F ∧
      body.operation ≠ .undefined ∧ ∀ m, ¬ RefusesAddressing d.model opcode m) ∨
    ∃ form width, d.stepOpcode opcode = d.enter (.modRm form width) ∧ opcode ≠ 0x0F ∧
      form.isDefined ∧ ∀ m, RefusesAddressing d.model opcode m ↔ form.Refuses d.model m := by
  have hundefined := shape_eq_undefined_iff opcode
  have hmodifier := isSome_modifier?_iff opcode
  have hescape := shape_eq_escape_iff opcode
  have hdefined := isDefined_primary opcode
  rw [stepOpcode_of_isKnown hknown]
  cases hshape : (OpcodeMap.primary opcode).shape with
  | undefined => exact absurd (hundefined.mp hshape) hknown.1
  | prefixByte p =>
      rw [modifier?, hshape] at hmodifier
      exact absurd ⟨hmodifier.mp rfl, hknown.2⟩ hopcode
  | escape =>
      exact .inl ⟨hescape.mp hshape, rfl, fun m => not_refusesAddressing (by simp [hshape])⟩
  | fixed body layout =>
      rw [hshape] at hescape hdefined
      refine .inr (.inl ⟨body, layout, rfl, by simpa using hescape, of_decide_eq_true hdefined, ?_⟩)
      exact fun m => not_refusesAddressing (by simp [hshape])
  | modRm form width =>
      rw [hshape] at hescape hdefined
      refine .inr (.inr ⟨form, width, rfl, by simpa using hescape, hdefined, ?_⟩)
      exact fun m => refusesAddressing_iff hshape

/-- At the opcode, it can be refused, and what follows it. -/
theorem refuses_opcode_iff (hphase : d.phase = .opcode)
    (hhead : ∀ opcode ∈ bytes.head?, ¬ IsPrefix d.model opcode) :
    (d.decode bytes).1.Refuses length i ↔
      i = .undefined ∧ RejectedFrom d.model d.consumed bytes length := by
  unfold RejectedFrom
  cases bytes with
  | nil => simp
  | cons opcode rest =>
      have hopcode := hhead opcode rfl
      rw [decode_cons_fst, step, hphase]
      dsimp only
      by_cases hknown : IsKnown d.model opcode
      · rcases stepOpcode_of_opcode hknown hopcode with ⟨hescape, hstep, hnone⟩ |
          ⟨body, layout, hstep, hescape, hdefined, hnone⟩ |
          ⟨form, width, hstep, hescape, hform, hrefuses⟩
        · rw [hstep, answer_enter, refuses_secondary_iff rfl (hescape ▸ hknown)]
          simp [and_assoc, hescape ▸ hknown, hescape, hescape ▸ hnone]
        · simp [and_assoc, hstep, not_refuses_awaitTrailing hdefined, hknown, hescape, hnone]
        · rw [hstep, answer_enter, refuses_modRm_iff rfl hform]
          simp [and_assoc, hknown, hescape, hrefuses]
      · rw [stepOpcode_of_not_isKnown hknown, answer_refuse, DecodeResult.refuses_undefined_iff]
        by_cases hescape : opcode = 0x0F
        · simp [and_assoc, hknown, hescape ▸ hknown]
        · simp [and_assoc, hknown, hescape]

end Decoder

/-! ## The whole encoding -/

theorem prefixRun_append (model : Model) (bytes : List UInt8) :
    prefixRun model bytes ++ afterPrefixRun model bytes = bytes :=
  List.takeWhile_append_dropWhile

theorem isPrefix_of_mem_prefixRun {model : Model} {bytes : List UInt8} {byte : UInt8}
    (h : byte ∈ prefixRun model bytes) : IsPrefix model byte :=
  of_decide_eq_true (List.mem_takeWhile_imp (p := (IsPrefix model ·)) h)

theorem not_isPrefix_of_mem_head? {model : Model} {bytes : List UInt8} {opcode : UInt8}
    (h : opcode ∈ (afterPrefixRun model bytes).head?) : ¬ IsPrefix model opcode := by
  have hhead := List.head?_dropWhile_not (IsPrefix model ·) bytes
  rw [afterPrefixRun, Option.mem_def] at h
  rw [h] at hhead
  simpa using hhead

/-- The undefined instruction is what the rule refuses, and it has nothing in it. No encoding that
the rule lets pass comes out undefined, and of one that it refuses no part is kept. -/
theorem decodeOne_undefined_iff (model : Model) (bytes : List UInt8) (length : Nat)
    (i : Instruction) :
    decodeOne model bytes = .complete length i ∧ i.isUndefined = true ↔
      i = .undefined ∧ Rejected model bytes length := by
  have hrun : ∀ byte ∈ prefixRun model bytes, IsPrefix (Decoder.new model).model byte :=
    fun byte hbyte => isPrefix_of_mem_prefixRun hbyte
  change (decodeOne model bytes).Refuses length i ↔ _
  rw [decodeOne]
  conv => lhs; rw [← prefixRun_append model bytes]
  by_cases hlong : 15 ≤ (prefixRun model bytes).length
  · have hfull : maxLength ≤ (Decoder.new model).consumed + (prefixRun model bytes).length := by
      rwa [Decoder.new, maxLength, Nat.zero_add]
    rw [Decoder.answer_run_of_length rfl (Nat.zero_lt_succ 14) hrun hfull,
      DecodeResult.refuses_undefined_iff, rejected_iff_of_long hlong]
    rfl
  · have hshort : (prefixRun model bytes).length ≤ 14 := by omega
    have hroom : (Decoder.new model).consumed + (prefixRun model bytes).length < maxLength := by
      rw [Decoder.new, maxLength, Nat.zero_add]
      omega
    have hhead : ∀ opcode ∈ (afterPrefixRun model bytes).head?, ¬ IsPrefix model opcode :=
      fun opcode h => not_isPrefix_of_mem_head? h
    have hconsumed : ((Decoder.new model).passing (prefixRun model bytes)).consumed =
        (prefixRun model bytes).length := Nat.zero_add _
    rw [Decoder.decode_run rfl hrun hroom, Decoder.refuses_opcode_iff rfl hhead, hconsumed,
      rejected_iff_of_short hshort]
    rfl

end Iapx86
