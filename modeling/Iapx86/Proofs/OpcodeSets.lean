import Iapx86.Encoding.OpcodeSet
import Iapx86.Proofs.Session

/-!
# What is in a set of opcodes

The four words of an `OpcodeSet` have a bit for each byte and no other bits, so a set is determined
by its members (`OpcodeSet.eq_iff_contains`). Whatever holds of sets of bytes then holds of the
words: a byte can be added twice, and the order does not matter (`OpcodeSet.ofList_eq_iff`). Going
through all bytes and adding some of them gives the set of these (`OpcodeSet.foldl_allBytes`), which
is how the opcodes of a model are collected.
-/

namespace Iapx86

namespace OpcodeSet

/-- The byte whose bit is at the given place. -/
def byteAt (word : Fin 4) (bit : Fin 64) : UInt8 := .ofNat (64 * word + bit)

theorem toNat_byteAt (word : Fin 4) (bit : Fin 64) : (byteAt word bit).toNat = 64 * word + bit := by
  have hlt : 64 * word.val + bit.val < 2 ^ 8 := by omega
  exact UInt8.toNat_ofNat_of_lt hlt

theorem contains_byteAt (s : OpcodeSet) (word : Fin 4) (bit : Fin 64) :
    s.contains (byteAt word bit) = s.words[word].toNat.testBit bit := by
  have hword : wordIndex (byteAt word bit) = word :=
    Fin.ext (by simp only [wordIndex, toNat_byteAt]; omega)
  have hbit : (byteAt word bit).toNat % 64 = bit := by
    rw [toNat_byteAt]
    omega
  simp only [contains_eq_testBit, hword, hbit]

/-- A set is determined by its members. -/
theorem eq_iff_contains {s t : OpcodeSet} : s = t ↔ ∀ b, s.contains b = t.contains b := by
  refine ⟨fun h b => congrArg (contains · b) h, fun h => ?_⟩
  have hword (word : Fin 4) : s.words[word] = t.words[word] := by
    rw [← UInt64.toNat_inj]
    apply Nat.eq_of_testBit_eq
    intro bit
    by_cases hbit : bit < 64
    · have hbyte := h (byteAt word ⟨bit, hbit⟩)
      rwa [contains_byteAt, contains_byteAt] at hbyte
    · -- A word has no further bits.
      have hlarge : 2 ^ 64 ≤ 2 ^ bit := Nat.pow_le_pow_right (by decide) (Nat.le_of_not_lt hbit)
      rw [Nat.testBit_lt_two_pow (Nat.lt_of_lt_of_le (UInt64.toNat_lt _) hlarge),
        Nat.testBit_lt_two_pow (Nat.lt_of_lt_of_le (UInt64.toNat_lt _) hlarge)]
  cases s
  cases t
  exact congrArg mk (Vector.ext fun i hi => hword ⟨i, hi⟩)

theorem insert_insert_self (s : OpcodeSet) (b : UInt8) : (s.insert b).insert b = s.insert b := by
  rw [eq_iff_contains]
  intro c
  rw [contains_insert, contains_insert, ← Bool.or_assoc, Bool.or_self]

/-- What counts is which bytes are added, and neither in which order nor how often. -/
theorem ofList_eq_iff {bs cs : List UInt8} : ofList bs = ofList cs ↔ ∀ b, b ∈ bs ↔ b ∈ cs := by
  simp only [eq_iff_contains, contains_ofList, decide_eq_decide]

/-- Going through all bytes and adding some of them gives the set of these. -/
theorem foldl_allBytes (p : UInt8 → Bool) :
    allBytes.foldl (fun s b => if p b then s.insert b else s) empty = ofPredicate p :=
  (List.foldl_filter ..).symm

/-- Every set is made of its members. -/
theorem ofPredicate_contains (s : OpcodeSet) : ofPredicate s.contains = s := by
  rw [eq_iff_contains]
  exact contains_ofPredicate s.contains

end OpcodeSet

namespace Decoder

theorem model_after (model : Model) (calls : List Call) : ((new model).after calls).model = model :=
  (exists_inProgress_after model calls).elim fun _ h => h.model_eq

/-- Four words are a set of bytes. Adding bytes to none gives the set of just these; adding one
twice is adding it once, and two lists of bytes give the same words if and only if they have the
same members, so that the order does not matter either. Going through all bytes and adding those
that a predicate holds of gives the set of these, and there are no other sets. So the opcodes that a
decoder takes for legal, whatever it was used for, are those that the opcode map has for its model,
and after `0F` those that it has on the secondary page if the model knows `0F`. -/
theorem session_isLegal (model : Model) (calls : List Call) (bs cs : List UInt8)
    (p : UInt8 → Bool) (opcode : UInt8) :
    let d := (new model).after calls
    let collected :=
      OpcodeSet.allBytes.foldl (fun s b => if p b then s.insert b else s) OpcodeSet.empty
    ((bs.foldl OpcodeSet.insert OpcodeSet.empty).contains opcode = true ↔ opcode ∈ bs) ∧
    (∀ (s : OpcodeSet) (b : UInt8), (s.insert b).insert b = s.insert b) ∧
    (bs.foldl OpcodeSet.insert OpcodeSet.empty = cs.foldl OpcodeSet.insert OpcodeSet.empty ↔
      ∀ b, b ∈ bs ↔ b ∈ cs) ∧
    collected.contains opcode = p opcode ∧
    (∀ s : OpcodeSet, p = s.contains ↔ collected = s) ∧
    d.isLegal opcode = (OpcodeMap.primary opcode).isLegalOn model ∧
    d.isLegalSecondary opcode =
      ((OpcodeMap.primary 0x0F).isLegalOn model &&
        (OpcodeMap.secondary opcode).isLegalOn model) := by
  intro d collected
  have hmodel : d.model = model := model_after model calls
  have hcollected : collected = .ofPredicate p := OpcodeSet.foldl_allBytes p
  refine ⟨?_, OpcodeSet.insert_insert_self, OpcodeSet.ofList_eq_iff, ?_, fun s => ?_, ?_, ?_⟩
  · change (OpcodeSet.ofList bs).contains opcode = true ↔ _
    rw [OpcodeSet.contains_ofList, decide_eq_true_eq]
  · rw [hcollected, OpcodeSet.contains_ofPredicate]
  · rw [hcollected]
    refine ⟨fun h => h ▸ s.ofPredicate_contains, fun h => ?_⟩
    rw [← h]
    exact funext fun b => (OpcodeSet.contains_ofPredicate p b).symm
  · rw [isLegal, hmodel, Legality.primary_ofModel]
  · rw [isLegalSecondary, hmodel, Legality.secondary_ofModel]

end Decoder

end Iapx86
