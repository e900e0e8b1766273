/-!
# Sets of opcodes

A set of bytes as four words of 64 bits: the upper two bits of a byte pick the word and the lower
six the bit. Membership is then a shift and a mask. `insert` adds one byte and changes nothing
else (`contains_insert`), and `ofPredicate` is the set of the bytes that a predicate holds of.
-/

namespace Iapx86

/-- A set of bytes, one bit for each. -/
structure OpcodeSet where
  words : Vector UInt64 4
  deriving DecidableEq, Repr

namespace OpcodeSet

/-- The word that holds the bit of a byte. -/
def wordIndex (b : UInt8) : Fin 4 := ⟨b.toNat / 64, by have := b.toNat_lt; omega⟩

/-- The place of the bit within its word. -/
def bitIndex (b : UInt8) : UInt64 := (b.toNat % 64).toUInt64

/-- The set without members. -/
def empty : OpcodeSet := ⟨Vector.replicate 4 0⟩

/-- Whether a byte is a member. -/
def contains (s : OpcodeSet) (b : UInt8) : Bool :=
  (s.words[wordIndex b] >>> bitIndex b) &&& 1 = 1

/-- Adds a byte. -/
def insert (s : OpcodeSet) (b : UInt8) : OpcodeSet :=
  ⟨s.words.set (wordIndex b) (s.words[wordIndex b] ||| (1 <<< bitIndex b))⟩

/-- The set of the bytes in a list. -/
def ofList (bs : List UInt8) : OpcodeSet := bs.foldl insert empty

/-- Every byte, in ascending order. -/
def allBytes : List UInt8 := (List.range 256).map Nat.toUInt8

/-- The set of the bytes that a predicate holds of. -/
def ofPredicate (p : UInt8 → Bool) : OpcodeSet := ofList (allBytes.filter p)

theorem toNat_bitIndex (b : UInt8) : (bitIndex b).toNat = b.toNat % 64 := by
  have h : b.toNat % 64 < 2 ^ 64 := by omega
  exact UInt64.toNat_ofNat'.trans (Nat.mod_eq_of_lt h)

/-- A byte is a member exactly when its bit is set. -/
theorem contains_eq_testBit (s : OpcodeSet) (b : UInt8) :
    s.contains b = s.words[wordIndex b].toNat.testBit (b.toNat % 64) := by
  simp [contains, ← UInt64.toNat_inj, toNat_bitIndex, Nat.testBit_eq_decide_div_mod_eq,
    Nat.shiftRight_eq_div_pow]

@[simp] theorem contains_empty (b : UInt8) : empty.contains b = false := by
  simp [contains_eq_testBit, empty]

/-- The members after adding a byte are that byte and the members before. -/
@[simp] theorem contains_insert (s : OpcodeSet) (b c : UInt8) :
    (s.insert b).contains c = (decide (c = b) || s.contains c) := by
  simp only [contains_eq_testBit, insert]
  by_cases hword : wordIndex b = wordIndex c
  · have hindex : b.toNat / 64 = c.toNat / 64 := congrArg Fin.val hword
    have hbit : c.toNat % 64 = b.toNat % 64 ↔ c = b := by
      rw [← UInt8.toNat_inj]
      omega
    simp only [hword, Fin.getElem_fin, Vector.getElem_set_self, UInt64.toNat_or, Nat.testBit_or]
    rw [Bool.or_comm]
    congr 1
    have hlt : 2 ^ (b.toNat % 64) < 2 ^ 64 := Nat.pow_lt_pow_right (by decide) (by omega)
    have hmask : (1 <<< bitIndex b : UInt64).toNat = 2 ^ (b.toNat % 64) := by
      rw [UInt64.toNat_shiftLeft, toNat_bitIndex, Nat.mod_mod, UInt64.toNat_one,
        Nat.shiftLeft_eq, Nat.one_mul, Nat.mod_eq_of_lt hlt]
    rw [hmask, Nat.testBit_two_pow]
    simp only [eq_comm (a := b.toNat % 64), hbit]
  · have hne : c ≠ b := fun h => hword (by rw [h])
    have hindex : (wordIndex b).val ≠ (wordIndex c).val := fun h => hword (Fin.ext h)
    simp [hne, Vector.getElem_set_ne _ _ hindex]

/-- Adding the bytes of a list one after the other adds just these. -/
theorem contains_foldl_insert (bs : List UInt8) (s : OpcodeSet) (b : UInt8) :
    (bs.foldl insert s).contains b = (decide (b ∈ bs) || s.contains b) := by
  induction bs generalizing s with
  | nil => simp
  | cons c bs ih =>
      rw [List.foldl_cons, ih, contains_insert, ← Bool.or_assoc, Bool.or_comm (decide (b ∈ bs))]
      simp

@[simp] theorem contains_ofList (bs : List UInt8) (b : UInt8) :
    (ofList bs).contains b = decide (b ∈ bs) := by
  simp [ofList, contains_foldl_insert]

@[simp] theorem mem_allBytes (b : UInt8) : b ∈ allBytes :=
  List.mem_map.mpr ⟨b.toNat, List.mem_range.mpr b.toNat_lt, by simp⟩

@[simp] theorem contains_ofPredicate (p : UInt8 → Bool) (b : UInt8) :
    (ofPredicate p).contains b = p b := by
  simp [ofPredicate]

end OpcodeSet

end Iapx86
