import Iapx86.Json.Token

/-!
# JSON values

The second half of reading JSON: tokens to a value. The values that surround the current place are
kept in a stack of `Context`s, so nesting may be of any depth and the reader is a plain recursion
over the tokens. The members of an object stay in their order, and none is dropped when two have
the same key.
-/

namespace Iapx86

namespace Json

/-- A JSON value. Numbers are kept as they are written. -/
inductive Value where
  | null
  | bool (value : Bool)
  | number (numeral : List Char)
  /-- A string, with its text unless half of a surrogate pair stands in it alone. -/
  | string (text : Option String)
  | array (items : List Value)
  | object (members : List (Option String × Value))

/-- What surrounds the current place, with what has been read of it, the latest first. -/
inductive Context where
  | array (items : List Value)
  /-- An object whose next key is due. -/
  | object (members : List (Option String × Value))
  /-- An object whose member of this key is due. -/
  | member (members : List (Option String × Value)) (key : Option String)

/-- What may come next. -/
inductive Expected where
  | value
  | valueOrEnd
  | key
  | keyOrEnd
  | colon
  /-- The value that has just been read is over: a comma, the end of what surrounds it, or the
  end of the text. -/
  | continuation (last : Value)

/-- The value that a token is, if one token is all of it. -/
def Token.value? : Token → Option Value
  | null => some .null
  | bool b => some (.bool b)
  | number numeral => some (.number numeral)
  | string text => some (.string text)
  | _ => none

/-- Begins a value. -/
def beginValue (stack : List Context) : Token → Option (List Context × Expected)
  | .openArray => some (.array [] :: stack, .valueOrEnd)
  | .openObject => some (.object [] :: stack, .keyOrEnd)
  | token => token.value?.map fun v => (stack, .continuation v)

/-- Begins a member. -/
def beginMember : List Context → Token → Option (List Context × Expected)
  | .object members :: stack, .string key => some (.member members key :: stack, .colon)
  | _, _ => none

/-- Goes on after a value. -/
def continueAfter (last : Value) : List Context → Token → Option (List Context × Expected)
  | .array items :: stack, .comma => some (.array (last :: items) :: stack, .value)
  | .array items :: stack, .closeArray =>
      some (stack, .continuation (.array (last :: items).reverse))
  | .member members key :: stack, .comma => some (.object ((key, last) :: members) :: stack, .key)
  | .member members key :: stack, .closeObject =>
      some (stack, .continuation (.object ((key, last) :: members).reverse))
  | _, _ => none

/-- Takes in one token. -/
def advance (stack : List Context) (expected : Expected) (token : Token) :
    Option (List Context × Expected) :=
  match expected, token, stack with
  | .value, token, stack => beginValue stack token
  | .valueOrEnd, .closeArray, .array _ :: stack => some (stack, .continuation (.array []))
  | .valueOrEnd, token, stack => beginValue stack token
  | .key, token, stack => beginMember stack token
  | .keyOrEnd, .closeObject, .object _ :: stack => some (stack, .continuation (.object []))
  | .keyOrEnd, token, stack => beginMember stack token
  | .colon, .colon, stack => some (stack, .value)
  | .colon, _, _ => none
  | .continuation last, token, stack => continueAfter last stack token

/-- The value that the remaining tokens complete. -/
def valueFrom? (stack : List Context) (expected : Expected) : List Token → Option Value
  | [] =>
      match stack, expected with
      | [], .continuation v => some v
      | _, _ => none
  | token :: tokens =>
      (advance stack expected token).bind fun (stack, expected) =>
        valueFrom? stack expected tokens

/-- Reads a text that holds one value and nothing else. -/
def Value.ofText? (text : String) : Option Value :=
  (tokens? text.toList).bind (valueFrom? [] .value)

end Json

end Iapx86
