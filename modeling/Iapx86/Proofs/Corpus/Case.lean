import Iapx86.Corpus.Case
import Iapx86.Proofs.Errors
import Iapx86.Proofs.Viability

/-!
# Cases that pass

A case passes just if its bytes are one instruction that goes by its name
(`Case.check_eq_ok_iff`). An instruction needs all its bytes and no more, so the bytes of a case
that passes can neither be cut short nor go on: what is left of them is incomplete, and what goes on
behind them is not part of the instruction.
-/

namespace Iapx86

namespace Corpus

namespace Case

variable {model : Model} {c : Case} {length : Nat} {i : Instruction}

theorem check_of_needMore {atLeast : Nat} (h : decodeOne model c.bytes = .needMore atLeast) :
    c.check model = .error (.incomplete c.bytes.length) := by
  rw [check, h]

theorem check_of_length_ne (h : decodeOne model c.bytes = .complete length i)
    (hdefined : i.isUndefined = false) (hlength : length ≠ c.bytes.length) :
    c.check model = .error (.length c.bytes.length length) := by
  rw [check, h]
  dsimp only
  rw [hdefined, if_neg Bool.false_ne_true, if_pos hlength]

theorem check_eq_ok_iff :
    c.check model = .ok () ↔ ∃ i, decodeOne model c.bytes = .complete c.bytes.length i ∧
      i.isUndefined = false ∧ nameFits (expectedMnemonic c.name) i = true := by
  rw [check]
  cases hdecode : decodeOne model c.bytes with
  | needMore atLeast => simp
  | complete length i =>
      simp only [ite_error_eq_ok_iff, ite_ok_eq_ok_iff, not_not, Bool.not_eq_true,
        DecodeResult.complete.injEq]
      constructor
      · rintro ⟨hdefined, rfl, hfits⟩
        exact ⟨i, ⟨rfl, rfl⟩, hdefined, hfits⟩
      · rintro ⟨i, ⟨rfl, rfl⟩, hdefined, hfits⟩
        exact ⟨hdefined, rfl, hfits⟩

/-- The bytes of a case that passes are exactly one instruction. Whatever they begin with, and is
shorter, is incomplete; whatever begins with them, and is longer, is too long by what they do not
hold. -/
theorem check_of_prefix (h : c.check model = .ok ()) :
    (∀ bytes, bytes <+: c.bytes → bytes ≠ c.bytes →
      Case.check model { c with bytes } = .error (.incomplete bytes.length)) ∧
    ∀ bytes, c.bytes <+: bytes → bytes ≠ c.bytes →
      Case.check model { c with bytes } = .error (.length bytes.length c.bytes.length) := by
  obtain ⟨i, hdecode, hdefined, -⟩ := check_eq_ok_iff.mp h
  constructor
  · intro bytes hbegins hne
    have hlt : bytes.length < c.bytes.length :=
      lt_of_le_of_ne hbegins.length_le fun heq => hne (hbegins.eq_of_length heq)
    obtain ⟨atLeast, hcut⟩ := decodeOne_take_of_lt hdecode hlt
    rw [← List.prefix_iff_eq_take.mp hbegins] at hcut
    exact check_of_needMore hcut
  · rintro bytes ⟨tail, rfl⟩ hne
    have hextended := decodeOne_take_append hdecode tail
    rw [List.take_length] at hextended
    refine check_of_length_ne hextended hdefined fun heq => hne ?_
    exact (List.prefix_append c.bytes tail).eq_of_length heq |>.symm

/-- A locked addition with a displacement: one byte less, no byte at all, and one byte more. -/
theorem check_of_prefix_lockAdd :
    let c : Case := { name := "lock add word [es:bx+5h], ax", bytes := [0xF0, 0x26, 0x01, 0x47, 5] }
    c.check .i8086 = .ok () ∧
      Case.check .i8086 { c with bytes := [0xF0, 0x26, 0x01, 0x47] } = .error (.incomplete 4) ∧
      Case.check .i8086 { c with bytes := [] } = .error (.incomplete 0) ∧
      Case.check .i8086 { c with bytes := [0xF0, 0x26, 0x01, 0x47, 5, 0xF0] } =
        .error (.length 6 5) := by
  intro c
  have hpasses : c.check .i8086 = .ok () := by decide +kernel
  obtain ⟨hcut, hextended⟩ := check_of_prefix hpasses
  exact ⟨hpasses, hcut [0xF0, 0x26, 0x01, 0x47] (by decide) (by decide),
    hcut [] (by decide) (by decide),
    hextended [0xF0, 0x26, 0x01, 0x47, 5, 0xF0] (by decide) (by decide)⟩

end Case

end Corpus

end Iapx86
