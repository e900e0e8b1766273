import Iapx86.Proofs.Answers
import Iapx86.Proofs.Dispatch
import Iapx86.Proofs.Extent
import Mathlib.Order.Bounds.Basic

/-!
# The longest instructions behind given bytes

The decoder limits the bytes before the opcode and the opcode, but not what comes after it. From the
opcode on an instruction has at most six bytes, and one more where addresses are wide
(`Decoder.Settles.length_add_size_le`), and there is one that has them all, whatever stands before
it (`isGreatest_lengthsBehind`). So `maxLength` bounds the instructions behind a run of bytes if and
only if the run leaves room for the longest of them.
-/

namespace Iapx86

open Opcode

theorem Opcode.length_add_operandSize_le (opcode : Opcode) (reg : Option Nat) :
    opcode.bytes.length + opcode.operandSize reg ≤ 3 := by
  cases opcode with
  | primary byte => exact Nat.add_le_add_left ((primary byte).operandSize_le reg) 1
  | secondary byte => exact Nat.le_succ 2

theorem Opcode.length_bytes_le (opcode : Opcode) : opcode.bytes.length ≤ 2 := by
  cases opcode with
  | primary byte => exact Nat.le_succ 1
  | secondary byte => exact Nat.le_refl 2

/-- An opcode with an addressing byte, both of which leave so many trailing bytes. -/
theorem Opcode.length_add_size_le {model : Model} {opcode : Opcode} {form : ModRmForm}
    {width : Width} {byte : UInt8} {body : Body} {layout : TrailingLayout}
    (hshape : opcode.shape = .modRm form width)
    (hresolve : (ModRm.ofByte byte).resolve? model form width = some (body, layout)) :
    opcode.bytes.length + layout.size ≤ 5 := by
  have hagrees := opcode.agreesWith_shape
  rw [hshape] at hagrees
  obtain ⟨-, -, hsizes⟩ := hagrees
  obtain ⟨-, hoperand⟩ := hsizes _ (ModRm.reg_ofByte_lt byte)
  have hsize := ModRm.size_of_resolve? hresolve
  have hthree := opcode.length_add_operandSize_le (some (ModRm.ofByte byte).reg)
  omega

/-- From the opcode to the last trailing byte. -/
theorem Decoder.Settles.length_add_size_le {d : Decoder} {head : List UInt8} {body : Body}
    {layout : TrailingLayout} (h : d.Settles head body layout) :
    head.length + layout.size ≤ 6 + if d.prefixes.addressSize = .bits32 then 1 else 0 := by
  cases h with
  | @fixed opcode _ _ hlegal hshape =>
      have hagrees := opcode.agreesWith_shape
      rw [hshape] at hagrees
      have hfour := hagrees.2.1.size_le
      have htwo := opcode.length_bytes_le
      omega
  | addressed hlegal hshape hresolve hsib =>
      have hfive := Opcode.length_add_size_le hshape hresolve
      rw [List.length_append, List.length_singleton]
      omega
  | scaled hlegal hshape hresolve hsib =>
      have hfive := Opcode.length_add_size_le hshape hresolve
      simp only [takesScaleIndexBase, Bool.and_eq_true, decide_eq_true_eq] at hsib
      rw [if_pos hsib.1.1, List.length_append, List.length_cons, List.length_singleton]
      omega

/-- The lengths of the instructions that have just these bytes before the opcode. -/
def lengthsBehind (model : Model) (run : List UInt8) : Set Nat :=
  {length | ∃ bytes i, prefixRun model bytes = run ∧ decodeOne model bytes = .complete length i ∧
    i.isUndefined = false}

section

variable {model : Model} {run : List UInt8}

theorem le_of_mem_lengthsBehind {length : Nat} (h : length ∈ lengthsBehind model run) :
    length ≤ run.length + 6 + if 0x67 ∈ run then 1 else 0 := by
  obtain ⟨bytes, i, rfl, hdecode, hdefined⟩ := h
  have hrun : ∀ byte ∈ prefixRun model bytes, IsPrefix model byte :=
    fun byte hbyte => isPrefix_of_mem_prefixRun hbyte
  have hshort := length_prefixRun_le hdecode hdefined
  rw [decodeOne, ← prefixRun_append model bytes, Decoder.decode_new_run hrun hshort] at hdecode
  obtain ⟨head, body, layout, hsettles, hlength⟩ := Decoder.exists_settles rfl
    (fun opcode h => not_isPrefix_of_mem_head? h) hdecode hdefined
  have hsize := hsettles.length_add_size_le
  have hwide : (Prefixes.ofRun (prefixRun model bytes)).addressSize = .bits32 ↔
      0x67 ∈ prefixRun model bytes := by
    rw [Prefixes.ofRun]
    split <;> simp_all
  simp only [Decoder.prefixes_passing_new, hwide] at hsize
  rw [Decoder.consumed_passing_new] at hlength
  omega

theorem prefixRun_append_cons (hrun : ∀ byte ∈ run, IsPrefix model byte) {opcode : UInt8}
    (hopcode : ¬ IsPrefix model opcode) (rest : List UInt8) :
    prefixRun model (run ++ opcode :: rest) = run := by
  have hall : ∀ byte ∈ run, decide (IsPrefix model byte) = true :=
    fun byte hbyte => decide_eq_true (hrun byte hbyte)
  rw [prefixRun, List.takeWhile_append_of_pos hall,
    List.takeWhile_cons_of_neg (by simpa using hopcode), List.append_nil]

/-- What is settled is completed by zeros, and so is an instruction of that length. -/
theorem mem_lengthsBehind_of_settles (hrun : ∀ byte ∈ run, IsPrefix model byte)
    (hlength : run.length ≤ 14) {opcode : UInt8} (hopcode : ¬ IsPrefix model opcode)
    {rest : List UInt8} {body : Body} {layout : TrailingLayout}
    (hsettles : ((Decoder.new model).passing run).Settles (opcode :: rest) body layout)
    (hbody : body.operation ≠ .undefined) :
    run.length + (opcode :: rest).length + layout.size ∈ lengthsBehind model run := by
  have hdecode := decodeOne_of_settles hrun hlength hsettles (List.replicate layout.size 0)
  rw [settledAnswer, if_neg (by simp)] at hdecode
  exact ⟨_, _, prefixRun_append_cons hrun hopcode _, hdecode,
    Instruction.isUndefined_withTrailing _ hbody layout _⟩

/-- Behind any run that leaves room for an opcode there is an instruction of six bytes, and where
addresses are wide one of seven. -/
theorem mem_lengthsBehind (hrun : ∀ byte ∈ run, IsPrefix model byte) (hlength : run.length ≤ 14) :
    run.length + 6 + (if 0x67 ∈ run then 1 else 0) ∈ lengthsBehind model run := by
  -- A word is moved to memory, with a word of displacement.
  have hlegal : (Opcode.primary 0xC7).IsLegal model := ⟨⟨by decide, model.i8086_le⟩, by decide⟩
  have hopcode : ¬ IsPrefix model 0xC7 := fun h => absurd h.1 (by decide)
  have hresolve : (ModRm.ofByte 0x84).resolve? model .movImmediate .word =
      some ({ operation := .mov, source := some .immediate, destination := some .indirect,
              width := .word, sib := { index := some .si } },
            { displacement := .word, operand := .word }) := rfl
  have hscaled := Header.takesScaleIndexBase_passing_new model run (.ofByte 0x84)
  by_cases hwide : 0x67 ∈ run
  · have hsib := hscaled.mpr ⟨hwide, by decide, by decide⟩
    have hsettles := @Decoder.Settles.scaled _ _ _ _ _ 0 _ _ hlegal rfl hresolve hsib
    rw [if_pos hwide]
    exact mem_lengthsBehind_of_settles hrun hlength hopcode hsettles Operation.noConfusion
  · have hsib : ((Decoder.new model).passing run).takesScaleIndexBase (.ofByte 0x84) = false := by
      rw [← Bool.not_eq_true, hscaled]
      exact fun h => hwide h.1
    have hsettles := Decoder.Settles.addressed hlegal rfl hresolve hsib
    rw [if_neg hwide]
    exact mem_lengthsBehind_of_settles hrun hlength hopcode hsettles Operation.noConfusion

end

/-- Behind a run of bytes that leaves room for an opcode, the longest instruction has six bytes from
the opcode on, or seven if the run asks for wide addresses. So all instructions behind it are within
`maxLength` if and only if there are at most nine bytes in the run, or eight. -/
theorem isGreatest_lengthsBehind (model : Model) (run : List UInt8)
    (hrun : ∀ byte ∈ run, IsPrefix model byte) (hlength : run.length ≤ 14) :
    IsGreatest (lengthsBehind model run) (run.length + 6 + if 0x67 ∈ run then 1 else 0) ∧
    ((∀ length ∈ lengthsBehind model run, length ≤ maxLength) ↔
      run.length ≤ if 0x67 ∈ run then 8 else 9) := by
  have hmem := mem_lengthsBehind hrun hlength
  have hroom : run.length + 6 + (if 0x67 ∈ run then 1 else 0) ≤ maxLength ↔
      run.length ≤ if 0x67 ∈ run then 8 else 9 := by
    simp only [maxLength]
    split <;> omega
  refine ⟨⟨hmem, fun length h => le_of_mem_lengthsBehind h⟩, fun hall => ?_, fun hshort => ?_⟩
  · exact hroom.mp (hall _ hmem)
  · exact fun length h => (le_of_mem_lengthsBehind h).trans (hroom.mpr hshort)

/-- Nine bytes leave room for every instruction, unless they ask for wide addresses. -/
theorem isGreatest_lengthsBehind_nine :
    (∀ byte ∈ List.replicate 9 0x26, IsPrefix .i80386 byte) ∧
      (∀ byte ∈ 0x67 :: List.replicate 8 0x26, IsPrefix .i80386 byte) ∧
      (∀ length ∈ lengthsBehind .i80386 (List.replicate 9 0x26), length ≤ maxLength) ∧
      ¬ ∀ length ∈ lengthsBehind .i80386 (0x67 :: List.replicate 8 0x26), length ≤ maxLength := by
  have hnarrow : ∀ byte ∈ List.replicate 9 0x26, IsPrefix .i80386 byte := by
    decide +kernel
  have hwide : ∀ byte ∈ 0x67 :: List.replicate 8 0x26, IsPrefix .i80386 byte := by
    decide +kernel
  refine ⟨hnarrow, hwide, ?_, ?_⟩
  · exact (isGreatest_lengthsBehind .i80386 _ hnarrow (by decide)).2.mpr (by decide)
  · rw [(isGreatest_lengthsBehind .i80386 _ hwide (by decide)).2]
    decide

/-- Behind ten bytes the longest instruction is longer than that. -/
theorem not_forall_length_le_maxLength :
    ¬ ∀ model bytes length i, decodeOne model bytes = .complete length i → i.isUndefined = false →
      length ≤ maxLength := by
  intro h
  have hdecode : decodeOne .i8086 (List.replicate 10 0x26 ++ [0xC7, 0x87, 0x34, 0x12, 0x78, 0x56]) =
      .complete 16
        { operation := .mov, source := some .immediate, destination := some .indirect,
          width := .word, sib := { index := some .bx }, displacement := 0x1234, operand := 0x5678,
          segmentOverride := some .es } := by
    decide +kernel
  exact absurd (h _ _ _ _ hdecode rfl) (by decide)

end Iapx86
