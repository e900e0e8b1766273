import Iapx86.Corpus.Stem
import Iapx86.Proofs.Dispatch
import Mathlib.Data.List.Basic

/-!
# Which corpus files an encoding belongs to

A corpus file is named for an opcode, and whether it covers an encoding is found out without the
decoder: ten bytes are skipped wherever they stand at the beginning, on any model. The decoder
applies the same bytes and no others where an instruction comes of the encoding, so both find the
opcode in the same place, and the files that cover the encoding are those of the opcode and of the
addressing byte that the decoder goes by.
-/

namespace Iapx86

namespace Corpus

open Opcode

namespace Stem

/-! ## What a stem covers -/

/-- An encoding is covered if the opcode comes next behind the bytes that are skipped, and the
member of the group is the named one. -/
theorem covers_iff (stem : Stem) (bytes : List UInt8) :
    stem.covers bytes = true ↔
      ∃ rest, bytes.dropWhile (· ∈ modifierBytes) = stem.opcode ++ rest ∧
        ∀ reg ∈ stem.subOpcode, ∃ byte ∈ rest.head?, (ModRm.ofByte byte).reg = reg := by
  unfold covers
  constructor
  · intro h
    split at h
    · cases h
    · next rest hrest =>
        refine ⟨rest, (List.isPrefixOf?_eq_some_iff_append_eq.mp hrest).symm, ?_⟩
        intro reg hreg
        rw [Option.mem_def.mp hreg] at h
        obtain ⟨byte, hbyte, hfield⟩ := (Option.any_eq_true _ _).mp h
        exact ⟨byte, hbyte, of_decide_eq_true hfield⟩
  · rintro ⟨rest, hrest, hmember⟩
    rw [List.isPrefixOf?_eq_some_iff_append_eq.mpr hrest.symm]
    dsimp only
    split
    · rfl
    · next reg hreg =>
        obtain ⟨byte, hbyte, hfield⟩ := hmember reg hreg
        exact (Option.any_eq_true _ _).mpr ⟨byte, hbyte, decide_eq_true hfield⟩

theorem ne_nil_of_opcodeOfDigits? {digits : List Char} {opcode : List UInt8}
    (h : opcodeOfDigits? digits = some opcode) : opcode ≠ [] := by
  unfold opcodeOfDigits? at h
  split at h
  · obtain ⟨byte, -, rfl⟩ := Option.map_eq_some_iff.mp h
    exact List.cons_ne_nil _ _
  · obtain ⟨first, -, h⟩ := Option.bind_eq_some_iff.mp h
    obtain ⟨second, -, h⟩ := Option.bind_eq_some_iff.mp h
    cases h
    exact List.cons_ne_nil _ _
  · cases h

theorem opcode_ne_nil_of_ofText? {name : String} {stem : Stem} (h : ofText? name = some stem) :
    stem.opcode ≠ [] := by
  unfold ofText? at h
  obtain ⟨opcode, hopcode, h⟩ := Option.bind_eq_some_iff.mp h
  split at h
  · cases h
    exact ne_nil_of_opcodeOfDigits? hopcode
  · obtain ⟨subOpcode, -, h⟩ := Option.bind_eq_some_iff.mp h
    cases h
    exact ne_nil_of_opcodeOfDigits? hopcode

/-- Bytes that are all skipped leave nothing to cover. -/
theorem not_covers_of_forall_mem {stem : Stem} (hstem : stem.opcode ≠ []) {bytes : List UInt8}
    (h : ∀ byte ∈ bytes, byte ∈ modifierBytes) : stem.covers bytes = false := by
  rw [← Bool.not_eq_true, covers_iff]
  rintro ⟨rest, hrest, -⟩
  rw [List.dropWhile_eq_nil_iff.mpr fun byte hbyte => decide_eq_true (h byte hbyte)] at hrest
  exact hstem (List.append_eq_nil_iff.mp hrest.symm).1

/-! ## What the decoder goes by -/

theorem head?_bytes_notMem {model : Model} {opcode : Opcode} (hlegal : opcode.IsLegal model)
    (behind : List UInt8) :
    ∀ byte ∈ (opcode.bytes ++ behind).head?, byte ∉ modifierBytes := by
  cases opcode with
  | primary byte =>
      rintro _ ⟨⟩
      exact hlegal.2.1
  | secondary byte =>
      rintro _ ⟨⟩
      decide

/-- The bytes that are skipped are those that the decoder applies, on every model. -/
theorem span_modifierBytes {model : Model} {run : List UInt8} {opcode : Opcode}
    (hrun : ∀ byte ∈ run, IsPrefix model byte) (hlegal : opcode.IsLegal model)
    (behind : List UInt8) :
    (run ++ (opcode.bytes ++ behind)).takeWhile (· ∈ modifierBytes) = run ∧
      (run ++ (opcode.bytes ++ behind)).dropWhile (· ∈ modifierBytes) =
        opcode.bytes ++ behind := by
  have hskipped : ∀ byte ∈ run, decide (byte ∈ modifierBytes) = true :=
    fun byte hbyte => decide_eq_true (hrun byte hbyte).1
  have hhead := head?_bytes_notMem hlegal behind
  rw [List.takeWhile_append_of_pos hskipped, List.dropWhile_append_of_pos hskipped]
  cases hbytes : opcode.bytes ++ behind with
  | nil => exact ⟨List.append_nil run, rfl⟩
  | cons byte rest =>
      rw [hbytes] at hhead
      have hbyte : ¬ decide (byte ∈ modifierBytes) = true := by
        simpa using hhead byte rfl
      rw [List.takeWhile_cons_of_neg (p := (· ∈ modifierBytes)) hbyte,
        List.dropWhile_cons_of_neg (p := (· ∈ modifierBytes)) hbyte]
      exact ⟨List.append_nil run, rfl⟩

variable {bytes behind : List UInt8} {opcode : Opcode}

theorem covers_singleton_iff
    (h : bytes.dropWhile (· ∈ modifierBytes) = opcode.bytes ++ behind) (byte : UInt8) :
    covers { opcode := [byte] } bytes = true ↔ opcode.bytes.head? = some byte := by
  rw [covers_iff, h]
  cases opcode with
  | primary first => simp [Opcode.bytes, eq_comm]
  | secondary second => simp [Opcode.bytes, eq_comm]

theorem covers_pair_iff {model : Model} (hlegal : opcode.IsLegal model)
    (h : bytes.dropWhile (· ∈ modifierBytes) = opcode.bytes ++ behind) (byte : UInt8) :
    covers { opcode := [0x0F, byte] } bytes = true ↔ opcode = .secondary byte := by
  rw [covers_iff, h]
  cases opcode with
  | primary first =>
      have hfirst : first ≠ 0x0F := hlegal.2.2
      simp [Opcode.bytes, hfirst]
  | secondary second => simp [Opcode.bytes, eq_comm]

theorem covers_member_iff {byte : UInt8}
    (h : bytes.dropWhile (· ∈ modifierBytes) = opcode.bytes ++ byte :: behind) (reg : Nat) :
    covers { opcode := opcode.bytes, subOpcode := some reg } bytes = true ↔
      (ModRm.ofByte byte).reg = reg := by
  rw [covers_iff, h]
  constructor
  · rintro ⟨rest, hrest, hmember⟩
    obtain rfl := List.append_cancel_left hrest
    obtain ⟨_, ⟨⟩, hfield⟩ := hmember reg rfl
    exact hfield
  · intro hfield
    refine ⟨byte :: behind, rfl, ?_⟩
    rintro _ ⟨⟩
    exact ⟨byte, rfl, hfield⟩

/-- Where an instruction comes of an encoding, the bytes that are skipped before the opcode are
those that the decoder applies. Of the files that are named for one byte without a member, just that
of the byte by which the decoder goes covers the encoding; if this is `0F`, just that of the byte
after it, among those of `0F` and another byte; and if an addressing byte follows, just that of its
`reg` field, among those for the members of the opcode. No file covers an encoding that ends before
the opcode. -/
theorem covers_of_decodeOne (model : Model) (bytes : List UInt8) :
    let applied := ByteUse.modifier.bytes ((Decoder.new model).uses bytes)
    let dispatched := ByteUse.opcode.bytes ((Decoder.new model).uses bytes)
    let resolved := ByteUse.addressing.bytes ((Decoder.new model).uses bytes)
    (∀ length i, decodeOne model bytes = .complete length i → i.isUndefined = false →
      (bytes.takeWhile (· ∈ modifierBytes)).length = applied.length ∧
      ∃ opcode : Opcode, dispatched = opcode.bytes ∧
        (∀ byte, covers { opcode := [byte] } bytes = true ↔ dispatched.head? = some byte) ∧
        (dispatched.head? = some 0x0F → ∃ second, dispatched = [0x0F, second] ∧
          ∀ byte, covers { opcode := [0x0F, byte] } bytes = true ↔ byte = second) ∧
        (opcode.TakesAddressing → ∃ byte, resolved = [byte] ∧ (ModRm.ofByte byte).reg < 8 ∧
          ∀ reg, covers { opcode := dispatched, subOpcode := some reg } bytes = true ↔
            reg = (ModRm.ofByte byte).reg)) ∧
    ((∀ byte ∈ bytes, byte ∈ modifierBytes) →
      ∀ name stem, ofText? name = some stem → covers stem bytes = false) := by
  intro applied dispatched resolved
  refine ⟨?_, fun hbytes name stem hstem =>
    not_covers_of_forall_mem (opcode_ne_nil_of_ofText? hstem) hbytes⟩
  intro length i h hdefined
  obtain ⟨run, opcode, addressing, behind, others, hbytes, hrun, hlegal, htakes, huses, hothers⟩ :=
    exists_uses_eq h hdefined
  obtain ⟨hskipped, hdrop⟩ := span_modifierBytes hrun hlegal (addressing.toList ++ behind)
  rw [← hbytes] at hskipped hdrop
  have hparts := ByteUse.bytes_of_parts run opcode.bytes addressing.toList hothers
  rw [← huses] at hparts
  obtain ⟨happlied, hdispatched, hresolved⟩ := hparts
  change applied = run at happlied
  change dispatched = opcode.bytes at hdispatched
  change resolved = addressing.toList at hresolved
  rw [happlied, hdispatched, hresolved, hskipped]
  refine ⟨rfl, opcode, rfl, covers_singleton_iff hdrop, ?_, ?_⟩
  · intro hescape
    cases opcode with
    | primary first =>
        obtain rfl := Option.some.inj hescape
        exact absurd rfl hlegal.2.2
    | secondary second =>
        refine ⟨second, rfl, fun byte => ?_⟩
        rw [covers_pair_iff hlegal hdrop, Opcode.secondary.injEq, eq_comm]
  · intro hopcode
    obtain ⟨byte, rfl⟩ := Option.isSome_iff_exists.mp (htakes.mpr hopcode)
    refine ⟨byte, rfl, ModRm.reg_ofByte_lt byte, fun reg => ?_⟩
    rw [covers_member_iff hdrop, eq_comm]

/-- An instruction behind a segment belongs to the files of its two bytes and of its member. -/
theorem covers_of_decodeOne_smsw :
    let bytes : List UInt8 := [0x2E, 0x0F, 0x01, 0xE0]
    let i : Instruction :=
      { segmentOverride := some .cs, operation := .smsw, source := some (.register .ax),
        destination := some (.register .ax), width := .word }
    decodeOne .i80286 bytes = .complete 4 i ∧ i.isUndefined = false ∧
      (∀ byte, covers { opcode := [byte] } bytes = true ↔ byte = 0x0F) ∧
      (∀ byte, covers { opcode := [0x0F, byte] } bytes = true ↔ byte = 0x01) ∧
      (∀ reg, covers { opcode := [0x0F, 0x01], subOpcode := some reg } bytes = true ↔ reg = 4) := by
  intro bytes i
  have hdecode : decodeOne .i80286 bytes = .complete 4 i := by decide +kernel
  have hdispatched : ByteUse.opcode.bytes ((Decoder.new .i80286).uses bytes) = [0x0F, 0x01] := by
    decide +kernel
  have hresolved : ByteUse.addressing.bytes ((Decoder.new .i80286).uses bytes) = [0xE0] := by
    decide +kernel
  obtain ⟨-, opcode, hopcode, hfirst, hsecond, hmember⟩ :=
    (covers_of_decodeOne .i80286 bytes).1 4 i hdecode rfl
  rw [hdispatched] at hopcode hfirst hsecond hmember
  have htakes : opcode.TakesAddressing := by
    cases opcode with
    | primary first => cases hopcode
    | secondary second =>
        cases hopcode
        decide
  obtain ⟨second, hpair, hsecond⟩ := hsecond rfl
  obtain ⟨byte, hbyte, -, hmember⟩ := hmember htakes
  cases hpair
  cases hresolved.symm.trans hbyte
  refine ⟨hdecode, rfl, fun byte => ?_, hsecond, hmember⟩
  rw [hfirst, List.head?_cons, Option.some_inj, eq_comm]

end Stem

end Corpus

end Iapx86
