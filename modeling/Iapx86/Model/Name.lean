import Iapx86.Model
import Iapx86.Text.Blank
import Iapx86.Text.Quoted

/-!
# Names of models

A model is read by its number, with or without the leading 80, in either case with or without an
`i` in front, and with blanks around it. The models of the eight-bit bus go by the model that they
are a variant of.
-/

namespace Iapx86

/-- A text that names no model, without the blanks around it. -/
structure UnknownModel where
  text : List Char
  deriving DecidableEq, Repr

/-- What is said of a text that names no model. -/
def UnknownModel.message (e : UnknownModel) : String :=
  "unknown CPU model " ++ Text.quoted e.text ++ " (expected one of 8086, 80186, 80286, 80386)"

namespace Model

/-- The numbers that each model goes by. -/
def ofNumber? (number : String) : Option Model :=
  if number ∈ ["8086", "8088", "86"] then some .i8086
  else if number ∈ ["80186", "80188", "186"] then some .i80186
  else if number ∈ ["80286", "286"] then some .i80286
  else if number ∈ ["80386", "386"] then some .i80386
  else none

/-- Reads the name of a model. -/
def ofText (text : String) : Except UnknownModel Model :=
  let trimmed := Text.trim text.toList
  let number := match Text.lower trimmed with
    | 'i' :: number => number
    | number => number
  match ofNumber? (String.ofList number) with
  | some model => .ok model
  | none => .error ⟨trimmed⟩

end Model

end Iapx86
