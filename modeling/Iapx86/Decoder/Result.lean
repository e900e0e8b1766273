import Iapx86.Decoder
import Iapx86.Instruction.Text

/-!
# The text of a result

A completed instruction is written with its length, and one in progress with the number of bytes
that it needs at least, where that is known.
-/

namespace Iapx86

open Numeral (decimal)

namespace DecodeResult

/-- The result in words. -/
def text : DecodeResult → String
  | complete length instruction => instruction.text ++ " (" ++ decimal length ++ " bytes)"
  | needMore 0 => "incomplete"
  | needMore atLeast => "incomplete, need " ++ decimal atLeast ++ " more"

instance : ToString DecodeResult := ⟨text⟩

end DecodeResult

end Iapx86
