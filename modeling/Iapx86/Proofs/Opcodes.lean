import Iapx86.Encoding.Legality

/-!
# Opcodes by their numbers

The opcode map says what a byte means. Here the same is said the other way round, as manuals list
it: which bytes stand before an opcode, which begin nothing, which continue `0F`, and which model
brought which. Each list is compared with the map once, byte by byte (`forall_byte`); afterwards
the map need not be opened again to know what kind of byte one has.
-/

namespace Iapx86

/-- What holds of 256 bytes holds of all of them. -/
theorem forall_byte {P : UInt8 → Prop} (h : ∀ n < 256, P (UInt8.ofNat n)) (byte : UInt8) :
    P byte := by
  have hbyte := h byte.toNat byte.toNat_lt
  rwa [UInt8.ofNat_toNat] at hbyte

namespace Opcode

/-- The bytes that stand before an opcode: segments, address size, lock and repetition. -/
def prefixBytes : List UInt8 := [0x26, 0x2E, 0x36, 0x3E, 0x64, 0x65, 0x67, 0xF0, 0xF2, 0xF3]

/-- The bytes that begin no instruction on any model. -/
def unassigned : List UInt8 := [0x66, 0xD6, 0xF1]

/-- The bytes that continue an instruction after `0F`. -/
def secondaryOpcodes : List UInt8 := [0x00, 0x01, 0x02, 0x03, 0x05, 0x06]

/-- The oldest model that a byte needs which stands before an opcode or is one. -/
def introducedIn (byte : UInt8) : Model :=
  if byte ∈ [0x64, 0x65, 0x67] then .i80386
  else if byte ∈ [0x0F, 0x63] then .i80286
  else if byte ∈ [0x60, 0x61, 0x62, 0x68, 0x69, 0x6A, 0x6B, 0x6C, 0x6D, 0x6E, 0x6F,
      0xC0, 0xC1, 0xC8, 0xC9] then .i80186
  else .i8086

/-- The model knows the byte at the beginning of an instruction. -/
def IsKnown (model : Model) (byte : UInt8) : Prop :=
  byte ∉ unassigned ∧ introducedIn byte ≤ model

/-- The model takes the byte for one that stands before an opcode. -/
def IsPrefix (model : Model) (byte : UInt8) : Prop :=
  byte ∈ prefixBytes ∧ introducedIn byte ≤ model

instance (model : Model) (byte : UInt8) : Decidable (IsKnown model byte) :=
  inferInstanceAs (Decidable (_ ∧ _))

instance (model : Model) (byte : UInt8) : Decidable (IsPrefix model byte) :=
  inferInstanceAs (Decidable (_ ∧ _))

theorem IsPrefix.isKnown {model : Model} {byte : UInt8} (h : IsPrefix model byte) :
    IsKnown model byte := by
  have hassigned : ∀ b : UInt8, b ∈ prefixBytes → b ∉ unassigned := forall_byte (by decide +kernel)
  exact ⟨hassigned byte h.1, h.2⟩

/-! ## The first byte -/

theorem shape_eq_undefined_iff :
    ∀ byte, (OpcodeMap.primary byte).shape = .undefined ↔ byte ∈ unassigned :=
  forall_byte (by decide +kernel)

theorem since_primary : ∀ byte, (OpcodeMap.primary byte).since = introducedIn byte :=
  forall_byte (by decide +kernel)

/-- What a byte before the opcode asks for. -/
def modifier? (byte : UInt8) : Option PrefixByte :=
  match (OpcodeMap.primary byte).shape with
  | .prefixByte p => some p
  | _ => none

theorem isSome_modifier?_iff : ∀ byte, (modifier? byte).isSome ↔ byte ∈ prefixBytes :=
  forall_byte (by decide +kernel)

theorem shape_eq_escape_iff :
    ∀ byte, (OpcodeMap.primary byte).shape = .escape ↔ byte = 0x0F :=
  forall_byte (by decide +kernel)

theorem primary_ofModel_iff (model : Model) (byte : UInt8) :
    (Legality.ofModel model).primary byte = true ↔ IsKnown model byte := by
  rw [Legality.primary_ofModel, OpcodeEntry.isLegalOn, decide_eq_true_eq, ne_eq,
    shape_eq_undefined_iff, since_primary]
  rfl

/-! ## The byte after `0F` -/

theorem secondary_isLegalOn : ∀ byte : UInt8,
    ((OpcodeMap.secondary byte).shape ≠ .undefined ↔ byte ∈ secondaryOpcodes) ∧
      (OpcodeMap.secondary byte).since ≤ .i80286 :=
  forall_byte (by decide +kernel)

theorem secondary_ofModel_iff (model : Model) (byte : UInt8) :
    (Legality.ofModel model).secondary byte = true ↔
      IsKnown model 0x0F ∧ byte ∈ secondaryOpcodes := by
  obtain ⟨hshape, hsince⟩ := secondary_isLegalOn byte
  rw [Legality.secondary_ofModel, Bool.and_eq_true, ← Legality.primary_ofModel, primary_ofModel_iff,
    OpcodeEntry.isLegalOn, decide_eq_true_eq, hshape]
  constructor
  · rintro ⟨hescape, hopcode, -⟩
    exact ⟨hescape, hopcode⟩
  · rintro ⟨hescape, hopcode⟩
    exact ⟨hescape, hopcode, Model.le_trans hsince hescape.2⟩

end Opcode

end Iapx86
