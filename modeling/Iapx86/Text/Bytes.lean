/-!
# Texts as bytes

A text is kept in a file as the bytes of its characters, and not all bytes are those of a text.
What has been kept is read back (`ofBytes?_bytes`).
-/

namespace Iapx86

namespace Text

/-- The bytes that a text is kept in. -/
def bytes (s : String) : List UInt8 := s.toUTF8.data.toList

/-- The text that the bytes are, if they are one. -/
def ofBytes? (contents : List UInt8) : Option String := String.fromUTF8? contents.toByteArray

theorem toByteArray_bytes (s : String) : (bytes s).toByteArray = s.toByteArray := by
  rw [bytes, String.toUTF8_eq_toByteArray]
  exact ByteArray.ext (by simp)

@[simp] theorem ofBytes?_bytes (s : String) : ofBytes? (bytes s) = some s := by
  have hvalid : (bytes s).toByteArray.IsValidUTF8 := toByteArray_bytes s ▸ s.isValidUTF8
  rw [ofBytes?, String.fromUTF8?, dif_pos hvalid, Option.some_inj, ← String.toByteArray_inj]
  exact toByteArray_bytes s

end Text

end Iapx86
