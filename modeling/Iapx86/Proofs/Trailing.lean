import Iapx86.Encoding.Trailing
import Mathlib.Algebra.Group.Nat.Defs
import Mathlib.Data.List.Induction

/-!
# What the trailing bytes say

Displacement and operand are numbers in little-endian order, some of them with a sign. The register
that gathers the trailing bytes is such a number too, moved up so that the last byte is highest
(`TrailingRegister.toNat_bits_gather`). So nothing is lost or mixed up when the two fields are read
off its top, in the order opposite to that of their bytes (`Body.withTrailing_gather`).
-/

namespace Iapx86

/-- The number that bytes make, the first of them being the lowest. -/
def littleEndian : List UInt8 → Nat
  | [] => 0
  | byte :: bytes => byte.toNat + 256 * littleEndian bytes

@[simp] theorem littleEndian_nil : littleEndian [] = 0 := rfl

@[simp] theorem littleEndian_cons (byte : UInt8) (bytes : List UInt8) :
    littleEndian (byte :: bytes) = byte.toNat + 256 * littleEndian bytes := rfl

theorem littleEndian_append (a b : List UInt8) :
    littleEndian (a ++ b) = littleEndian a + 256 ^ a.length * littleEndian b := by
  induction a with
  | nil => simp
  | cons byte a ih =>
      rw [List.cons_append, littleEndian_cons, littleEndian_cons, ih, List.length_cons,
        Nat.pow_succ', Nat.mul_add, Nat.mul_assoc, Nat.add_assoc]

/-- The same number when its highest bit is the sign. -/
def signedLittleEndian (bytes : List UInt8) : Int :=
  (littleEndian bytes : Int).bmod (256 ^ bytes.length)

/-! ## Words -/

def wordOfBytes (low high : UInt8) : UInt16 := .ofNat (littleEndian [low, high])

theorem toNat_wordOfBytes (low high : UInt8) :
    (wordOfBytes low high).toNat = littleEndian [low, high] := by
  have hlow := low.toNat_lt
  have hhigh := high.toNat_lt
  simp [wordOfBytes]
  omega

/-- The two bytes of a word, the lower one first. -/
def bytesOfWord (word : UInt16) : List UInt8 := [word.toUInt8, (word >>> 8).toUInt8]

@[simp] theorem wordOfBytes_bytesOfWord (word : UInt16) :
    wordOfBytes word.toUInt8 (word >>> 8).toUInt8 = word := by
  have hword := word.toNat_lt
  rw [← UInt16.toNat_inj, toNat_wordOfBytes]
  simp [Nat.shiftRight_eq_div_pow]
  omega

/-- The two bytes of the word that a byte with a sign stands for. -/
def signedBytes (byte : UInt8) : List UInt8 := bytesOfWord (signExtend byte).toUInt16

/-- The signed word that a field stands for: a single byte keeps its sign. -/
def signedWord : List UInt8 → Int16
  | [] => 0
  | [byte] => signExtend byte
  | low :: high :: _ => (wordOfBytes low high).toInt16

theorem toInt_signExtend (byte : UInt8) :
    (signExtend byte).toInt = signedLittleEndian [byte] := by
  rw [signExtend, Int8.toInt_toInt16]
  change byte.toBitVec.toInt = _
  rw [BitVec.toInt_eq_toNat_bmod]
  rfl

theorem toInt_signedWord {bytes : List UInt8} (h : bytes.length ≤ 2) :
    (signedWord bytes).toInt = signedLittleEndian bytes := by
  match bytes with
  | [] => rfl
  | [byte] => exact toInt_signExtend byte
  | [low, high] =>
      have hwidth : 256 ^ [low, high].length = 2 ^ 16 := by simp
      change (wordOfBytes low high).toBitVec.toInt = _
      rw [BitVec.toInt_eq_toNat_bmod, UInt16.toNat_toBitVec, toNat_wordOfBytes, signedLittleEndian,
        hwidth]

/-! ## The register -/

namespace TrailingRegister

def gather (bytes : List UInt8) : TrailingRegister := bytes.foldl push {}

@[simp] theorem gather_append_singleton (bytes : List UInt8) (byte : UInt8) :
    gather (bytes ++ [byte]) = (gather bytes).push byte := by
  simp [gather]

theorem ext_toNat {r s : TrailingRegister} (h : r.bits.toNat = s.bits.toNat) : r = s := by
  cases r
  cases s
  exact congrArg mk (UInt64.toNat_inj.mp h)

theorem toNat_bits_push (r : TrailingRegister) (byte : UInt8) :
    (r.push byte).bits.toNat = r.bits.toNat / 256 + byte.toNat * 2 ^ 56 := by
  have hbits := r.bits.toNat_lt
  have hbyte := byte.toNat_lt
  simp [push, Nat.shiftRight_eq_div_pow, Nat.shiftLeft_eq]
  omega

/-- The bytes received stand at the top in little-endian order, and below them is nothing. -/
theorem toNat_bits_gather (bytes : List UInt8) (h : bytes.length ≤ 8) :
    (gather bytes).bits.toNat = littleEndian bytes * 256 ^ (8 - bytes.length) := by
  -- A byte is pushed in at the top, so the induction takes the last byte off, not the first.
  induction bytes using List.reverseRecOn with
  | nil => rfl
  | append_singleton bytes byte ih =>
      rw [List.length_append, List.length_singleton] at h
      have hroom : 8 - bytes.length = 8 - (bytes.length + 1) + 1 := by omega
      have htop : 256 ^ bytes.length * 256 ^ (8 - (bytes.length + 1)) = 2 ^ 56 := by
        rw [← Nat.pow_add, show bytes.length + (8 - (bytes.length + 1)) = 7 by omega]
        rfl
      have hlower : (gather bytes).bits.toNat / 256 =
          littleEndian bytes * 256 ^ (8 - (bytes.length + 1)) := by
        rw [ih (by omega), hroom, Nat.pow_succ, ← Nat.mul_assoc, Nat.mul_div_cancel _ (by decide)]
      rw [gather_append_singleton, toNat_bits_push, hlower, littleEndian_append, ← htop]
      simp only [littleEndian_cons, littleEndian_nil, List.length_append, List.length_singleton,
        Nat.mul_zero, Nat.add_zero, Nat.add_mul]
      rw [Nat.mul_comm byte.toNat, Nat.mul_right_comm]

theorem bits_gather_mod {bytes : List UInt8} {k : Nat} (h : bytes.length + k ≤ 8) :
    (gather bytes).bits.toNat % 256 ^ k = 0 := by
  rw [toNat_bits_gather bytes (by omega), show 8 - bytes.length = 8 - bytes.length - k + k by omega,
    Nat.pow_add, ← Nat.mul_assoc, Nat.mul_mod_left]

theorem lastByte_push (r : TrailingRegister) (byte : UInt8) : (r.push byte).lastByte = byte := by
  have hbits := r.bits.toNat_lt
  have hbyte := byte.toNat_lt
  rw [← UInt8.toNat_inj]
  simp [lastByte, Nat.shiftRight_eq_div_pow, toNat_bits_push]
  omega

theorem lastWord_push_push (r : TrailingRegister) (low high : UInt8) :
    ((r.push low).push high).lastWord = wordOfBytes low high := by
  have hbits := r.bits.toNat_lt
  have hlow := low.toNat_lt
  have hhigh := high.toNat_lt
  rw [← UInt16.toNat_inj, toNat_wordOfBytes]
  simp [lastWord, Nat.shiftRight_eq_div_pow, toNat_bits_push]
  omega

theorem dropByte_push {r : TrailingRegister} (h : r.bits.toNat % 256 ^ 1 = 0) (byte : UInt8) :
    (r.push byte).dropByte = r := by
  have hbits := r.bits.toNat_lt
  have hbyte := byte.toNat_lt
  apply ext_toNat
  simp [dropByte, Nat.shiftLeft_eq, toNat_bits_push]
  omega

theorem dropWord_push_push {r : TrailingRegister} (h : r.bits.toNat % 256 ^ 2 = 0)
    (low high : UInt8) : ((r.push low).push high).dropWord = r := by
  have hbits := r.bits.toNat_lt
  have hlow := low.toNat_lt
  have hhigh := high.toNat_lt
  apply ext_toNat
  simp [dropWord, Nat.shiftLeft_eq, toNat_bits_push]
  omega

end TrailingRegister

/-! ## The two fields -/

namespace TrailingLayout

/-- The bytes of the displacement, the offset of a far pointer being one. -/
def displacementSize (layout : TrailingLayout) : Nat :=
  if layout.operand = .farPointer then 2 else layout.displacement.size

/-- The bytes of the operand, without the offset of a far pointer. -/
def operandSize (layout : TrailingLayout) : Nat :=
  if layout.operand = .farPointer then 2 else layout.operand.size

/-- A far pointer leaves no room for another displacement. -/
def IsProper (layout : TrailingLayout) : Prop :=
  layout.operand = .farPointer → layout.displacement = .absent

instance (layout : TrailingLayout) : Decidable layout.IsProper :=
  inferInstanceAs (Decidable (_ → _))

theorem size_eq {layout : TrailingLayout} (h : layout.IsProper) :
    layout.size = layout.displacementSize + layout.operandSize := by
  unfold size displacementSize operandSize
  split
  · next hfar =>
      rw [h hfar, hfar]
      rfl
  · rfl

theorem displacementSize_le (layout : TrailingLayout) : layout.displacementSize ≤ 2 := by
  unfold displacementSize
  split
  · exact Nat.le_refl 2
  · cases layout.displacement <;> decide

theorem operandSize_le (layout : TrailingLayout) : layout.operandSize ≤ 2 := by
  unfold operandSize
  cases layout.operand <;> decide

end TrailingLayout

namespace Body

open TrailingRegister

theorem signsByteOperand_iff (b : Body) :
    b.signsByteOperand = true ↔
      b.width = .word ∧ ¬ b.operation.isInputOutput ∧ ¬ b.operation.isShift := by
  simp [signsByteOperand, and_assoc]

/-- The same with its displacement and its operand taken from these bytes, where there are any. -/
def withFields (b : Body) (displacement operand : List UInt8) : Body :=
  { b with
    displacement := if displacement = [] then b.displacement else signedWord displacement
    operand :=
      match operand with
      | [] => b.operand
      | [byte] => if b.signsByteOperand then (signExtend byte).toUInt16 else byte.toUInt16
      | low :: high :: _ => wordOfBytes low high }

theorem toInt_displacement_withFields {b : Body} (hb : b.displacement = 0)
    {displacement : List UInt8} (h : displacement.length ≤ 2) (operand : List UInt8) :
    (b.withFields displacement operand).displacement.toInt = signedLittleEndian displacement := by
  by_cases hnil : displacement = []
  · simp [withFields, hnil, hb, signedLittleEndian]
  · simp only [withFields, if_neg hnil]
    exact toInt_signedWord h

theorem operand_withFields (b : Body) (displacement : List UInt8) {operand : List UInt8}
    (h : operand.length ≤ 2) :
    if operand.length = 0 then (b.withFields displacement operand).operand = b.operand
    else if operand.length = 1 ∧ b.signsByteOperand then
      (b.withFields displacement operand).operand.toInt16.toInt = signedLittleEndian operand
    else (b.withFields displacement operand).operand.toNat = littleEndian operand := by
  match operand with
  | [] => rfl
  | [byte] =>
      by_cases hsign : b.signsByteOperand = true
      · simpa [withFields, hsign] using toInt_signExtend byte
      · simp [withFields, hsign]
  | [low, high] => simpa [withFields] using toNat_wordOfBytes low high

/-- A byte with a sign is as good as the word that it stands for. -/
theorem withFields_signedBytes_operand {b : Body} (h : b.signsByteOperand = true)
    (displacement : List UInt8) (byte : UInt8) :
    b.withFields displacement (signedBytes byte) = b.withFields displacement [byte] := by
  simp [withFields, signedBytes, bytesOfWord, h]

theorem withFields_signedBytes_displacement (b : Body) (byte : UInt8) (operand : List UInt8) :
    b.withFields (signedBytes byte) operand = b.withFields [byte] operand := by
  simp [withFields, signedBytes, bytesOfWord, signedWord]

theorem withFields_withFields (b : Body) (displacement operand : List UInt8) :
    (b.withFields [] operand).withFields displacement [] = b.withFields displacement operand := rfl

theorem withDisplacement_gather (b : Body) (field : DisplacementField) {bytes : List UInt8}
    (h : bytes.length = field.size) :
    b.withDisplacement field (gather bytes) = b.withFields bytes [] := by
  match field, bytes with
  | .absent, [] => rfl
  | .byte, [byte] => simp [withDisplacement, withFields, gather, lastByte_push, signedWord]
  | .word, [low, high] =>
      simp [withDisplacement, withFields, gather, lastWord_push_push, signedWord]

/-- Reading operand and displacement off the register is reading them in their order. -/
theorem withTrailing_gather (b : Body) {layout : TrailingLayout} (hlayout : layout.IsProper)
    {displacement operand : List UInt8} (hd : displacement.length = layout.displacementSize)
    (ho : operand.length = layout.operandSize) :
    b.withTrailing layout (gather (displacement ++ operand)) =
      b.withFields displacement operand := by
  -- Below the displacement there is nothing, so dropping the operand leaves it as it was gathered.
  have hroom : displacement.length ≤ 2 := hd ▸ layout.displacementSize_le
  have hbyte : (gather displacement).bits.toNat % 256 ^ 1 = 0 := bits_gather_mod (by omega)
  have hword : (gather displacement).bits.toNat % 256 ^ 2 = 0 := bits_gather_mod (by omega)
  have hpush (low high : UInt8) : gather (displacement ++ [low, high]) =
      ((gather displacement).push low).push high := by simp [gather]
  obtain ⟨field, operandField⟩ := layout
  match operandField, operand, ho with
  | .absent, [], _ =>
      rw [List.append_nil]
      exact b.withDisplacement_gather field hd
  | .byte, [byte], _ =>
      rw [gather_append_singleton, ← withFields_withFields, ← withDisplacement_gather _ field hd,
        withTrailing]
      simp only [lastByte_push, dropByte_push hbyte]
      rfl
  | .word, [low, high], _ =>
      rw [hpush, ← withFields_withFields, ← withDisplacement_gather _ field hd, withTrailing]
      simp only [lastWord_push_push, dropWord_push_push hword]
      rfl
  | .farPointer, [low, high], _ =>
      rw [hpush, ← withFields_withFields, ← withDisplacement_gather _ .word hd, withTrailing]
      simp only [lastWord_push_push, dropWord_push_push hword]
      rfl

end Body

end Iapx86
