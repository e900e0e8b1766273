import Iapx86.Proofs.Header

/-!
# What comes of the bytes from the opcode on

There are three ways: a byte is refused, or the bytes settle an instruction but for its trailing
bytes, or they end before they do (`Decoder.outcome`). In each of them the answer is known, so what
is to be shown of all answers can be shown of these three. An instruction comes only of bytes that
settle it (`Decoder.exists_settles`).
-/

namespace Iapx86

open Opcode

theorem Opcode.IsLegal.rejectedFrom {model : Model} {opcode : Opcode} (h : opcode.IsLegal model)
    {byte : UInt8} (hrefuses : opcode.Refuses model (.ofByte byte)) (before : Nat)
    (tail : List UInt8) :
    RejectedFrom model before (opcode.bytes ++ byte :: tail)
      (before + (opcode.bytes.length + 1)) := by
  cases opcode with
  | primary opcode =>
      exact ⟨opcode, byte :: tail, rfl, .inr (.inr ⟨h.1, byte, tail, rfl, hrefuses, rfl⟩)⟩
  | secondary opcode =>
      exact ⟨0x0F, opcode :: byte :: tail, rfl,
        .inr (.inl ⟨rfl, h.1, opcode, byte :: tail, rfl, .inr ⟨byte, tail, rfl, hrefuses, rfl⟩⟩)⟩

/-- What is refused is refused behind more bytes. -/
theorem RejectedFrom.add {model : Model} {before length : Nat} {bytes : List UInt8}
    (h : RejectedFrom model before bytes length) (n : Nat) :
    RejectedFrom model (n + before) bytes (n + length) := by
  obtain ⟨opcode, rest, rfl, ⟨hopcode, rfl⟩ |
    ⟨rfl, hescape, second, rest', rfl, ⟨hsecond, rfl⟩ | ⟨byte, rest'', rfl, hbyte, rfl⟩⟩ |
    ⟨hopcode, byte, rest', rfl, hbyte, rfl⟩⟩ := h
  · exact ⟨_, _, rfl, .inl ⟨hopcode, rfl⟩⟩
  · exact ⟨_, _, rfl, .inr (.inl ⟨rfl, hescape, _, _, rfl, .inl ⟨hsecond, rfl⟩⟩)⟩
  · exact ⟨_, _, rfl, .inr (.inl ⟨rfl, hescape, _, _, rfl, .inr ⟨_, _, rfl, hbyte, rfl⟩⟩)⟩
  · exact ⟨_, _, rfl, .inr (.inr ⟨hopcode, _, _, rfl, hbyte, rfl⟩)⟩

namespace Decoder

/-- The bytes end before they settle an instruction, and none of them is refused. -/
inductive Unsettled (d : Decoder) : List UInt8 → Prop
  | escape (hescape : IsKnown d.model 0x0F) : Unsettled d [0x0F]
  | opcode {opcode : Opcode} {form : ModRmForm} {width : Width} (hlegal : opcode.IsLegal d.model)
      (hshape : opcode.shape = .modRm form width) : Unsettled d opcode.bytes
  | scaled {opcode : Opcode} {form : ModRmForm} {width : Width} {byte : UInt8} {body : Body}
      {layout : TrailingLayout} (hlegal : opcode.IsLegal d.model)
      (hshape : opcode.shape = .modRm form width)
      (hresolve : (ModRm.ofByte byte).resolve? d.model form width = some (body, layout))
      (hsib : d.takesScaleIndexBase (.ofByte byte) = true) : Unsettled d (opcode.bytes ++ [byte])

/-- The ways the bytes from the opcode on can go. -/
inductive Outcome (d : Decoder) (bytes : List UInt8) : Prop
  | refused {length : Nat} (h : RejectedFrom d.model d.consumed bytes length)
  | settled {head tail : List UInt8} {body : Body} {layout : TrailingLayout}
      (hbytes : bytes = head ++ tail) (h : d.Settles head body layout)
  | unsettled (h : d.Unsettled bytes)

variable {d : Decoder} {bytes : List UInt8}

theorem outcome_of_isLegal {opcode : Opcode} (hlegal : opcode.IsLegal d.model)
    (rest : List UInt8) : d.Outcome (opcode.bytes ++ rest) := by
  rcases hlegal.shape_cases with ⟨body, layout, hshape⟩ | ⟨form, width, hshape⟩
  · exact .settled rfl (.fixed hlegal hshape)
  · cases rest with
    | nil =>
        rw [List.append_nil]
        exact .unsettled (.opcode hlegal hshape)
    | cons byte rest =>
        cases hresolve : (ModRm.ofByte byte).resolve? d.model form width with
        | none =>
            have hrefuses := (Opcode.resolve?_eq_none_iff hshape).mp hresolve
            exact .refused (hlegal.rejectedFrom hrefuses _ rest)
        | some resolved =>
            cases hsib : d.takesScaleIndexBase (.ofByte byte) with
            | false =>
                have hbytes : opcode.bytes ++ byte :: rest = (opcode.bytes ++ [byte]) ++ rest := by
                  rw [List.append_assoc, List.singleton_append]
                exact .settled hbytes (.addressed hlegal hshape hresolve hsib)
            | true =>
                cases rest with
                | nil => exact .unsettled (.scaled hlegal hshape hresolve hsib)
                | cons sib rest =>
                    have hbytes : opcode.bytes ++ byte :: sib :: rest =
                        (opcode.bytes ++ [byte, sib]) ++ rest := by
                      rw [List.append_assoc, List.cons_append, List.singleton_append]
                    exact .settled hbytes (.scaled hlegal hshape hresolve hsib)

theorem outcome (hne : bytes ≠ []) (hhead : ∀ opcode ∈ bytes.head?, ¬ IsPrefix d.model opcode) :
    d.Outcome bytes := by
  obtain ⟨byte, rest, rfl⟩ := List.exists_cons_of_ne_nil hne
  by_cases hknown : IsKnown d.model byte
  · by_cases hescape : byte = 0x0F
    · subst hescape
      cases rest with
      | nil => exact .unsettled (.escape hknown)
      | cons second rest =>
          by_cases hsecond : second ∈ secondaryOpcodes
          · have hlegal : (Opcode.secondary second).IsLegal d.model := ⟨hknown, hsecond⟩
            exact outcome_of_isLegal hlegal rest
          · exact .refused ⟨_, _, rfl,
              .inr (.inl ⟨rfl, hknown, second, rest, rfl, .inl ⟨hsecond, rfl⟩⟩)⟩
    · have hprefix : byte ∉ prefixBytes := fun hmem => hhead byte rfl ⟨hmem, hknown.2⟩
      have hlegal : (Opcode.primary byte).IsLegal d.model := ⟨hknown, hprefix, hescape⟩
      exact outcome_of_isLegal hlegal rest
  · exact .refused ⟨_, _, rfl, .inl ⟨hknown, rfl⟩⟩

theorem Settles.operation_ne_undefined {head : List UInt8} {body : Body} {layout : TrailingLayout}
    (h : d.Settles head body layout) : body.operation ≠ .undefined := by
  cases h with
  | @fixed opcode _ _ hlegal hshape =>
      have hdefined := opcode.isDefined_shape
      rw [hshape] at hdefined
      exact of_decide_eq_true hdefined
  | @addressed opcode _ _ _ _ _ hlegal hshape hresolve hsib
  | @scaled opcode _ _ _ _ _ _ hlegal hshape hresolve hsib =>
      have hdefined := opcode.isDefined_shape
      rw [hshape] at hdefined
      exact ModRm.operation_of_resolve? hdefined hresolve

/-! ## The answers -/

theorem decode_of_rejectedFrom (hphase : d.phase = .opcode)
    (hhead : ∀ opcode ∈ bytes.head?, ¬ IsPrefix d.model opcode) {length : Nat}
    (h : RejectedFrom d.model d.consumed bytes length) :
    (d.decode bytes).1 = .complete length .undefined :=
  ((refuses_opcode_iff hphase hhead).mpr ⟨rfl, h⟩).1

theorem Unsettled.decode_eq (h : d.Unsettled bytes) (hphase : d.phase = .opcode) :
    (d.decode bytes).1 = .needMore 1 := by
  cases h with
  | escape hescape =>
      rw [decode_cons_fst, step_escape hphase hescape]
      rfl
  | @opcode opcode _ _ hlegal hshape =>
      rw [← List.append_nil opcode.bytes, decode_opcode hphase hlegal, hshape]
      rfl
  | @scaled opcode _ _ byte _ _ hlegal hshape hresolve hsib =>
      have hwide : (d.atLastByte opcode).takesScaleIndexBase (.ofByte byte) = true := by
        rw [takesScaleIndexBase, prefixes_atLastByte]
        exact hsib
      rw [← model_atLastByte opcode] at hresolve
      rw [decode_opcode hphase hlegal, hshape]
      refine (answer_enter_modRm hresolve []).trans ?_
      rw [hwide, if_pos rfl]
      rfl

/-- An instruction is settled by its bytes, and ends with the trailing bytes that it then takes. -/
theorem exists_settles (hphase : d.phase = .opcode)
    (hhead : ∀ opcode ∈ bytes.head?, ¬ IsPrefix d.model opcode) {length : Nat} {i : Instruction}
    (h : (d.decode bytes).1 = .complete length i) (hdefined : i.isUndefined = false) :
    ∃ head body layout, d.Settles head body layout ∧
      length = d.consumed + head.length + layout.size := by
  have hne : bytes ≠ [] := by
    rintro rfl
    cases h
  cases outcome hne hhead with
  | refused hrejected =>
      rw [decode_of_rejectedFrom hphase hhead hrejected] at h
      cases h
      cases hdefined
  | unsettled hunsettled =>
      rw [hunsettled.decode_eq hphase] at h
      cases h
  | @settled head tail body layout hbytes hsettles =>
      rw [hbytes, hsettles.decode_append hphase, settledAnswer] at h
      split at h
      · cases h
      · cases h
        exact ⟨head, body, layout, hsettles, rfl⟩

end Decoder

end Iapx86
