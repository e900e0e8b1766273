import Iapx86.Corpus.Format
import Iapx86.Json.Text
import Iapx86.Json.Value
import Iapx86.Text.Bytes

/-!
# Corpus files and reports in JSON

The format that a corpus comes in. A corpus file is a JSON array of cases. A case is an object with
a name and the bytes of the encoding, and whatever else there is in it is not looked at; or an array
of just the two. A key that occurs twice is an error, and so is a byte that is not a whole number
below 256. A report is an object with every member on a line of its own.

What a run comes to depends on this format only as far as any `Format` goes.
-/

namespace Iapx86

namespace Corpus

open Json (Value)

/-- The byte that a JSON value is. -/
def byteOfValue? : Value → Option UInt8
  | .number numeral => (Numeral.readDigits 10 256 0 numeral).toOption.map Nat.toUInt8
  | _ => none

/-- The bytes that a JSON value lists. -/
def bytesOfValue? : Value → Option (List UInt8)
  | .array items => items.mapM byteOfValue?
  | _ => none

/-- The text that a JSON value is. -/
def textOfValue? : Value → Option String
  | .string text => text
  | _ => none

/-- The only member of the given key. -/
def member? (members : List (Option String × Value)) (key : String) : Option Value :=
  match members.filter fun (k, _) => k = some key with
  | [(_, value)] => some value
  | _ => none

/-- The case that a JSON value is. Every key has to be a text, used or not. -/
def Case.ofValue? : Value → Option Case
  | .object members => do
      guard (members.all fun (key, _) => key.isSome)
      let name ← member? members "name" >>= textOfValue?
      let bytes ← member? members "bytes" >>= bytesOfValue?
      return { name, bytes }
  | .array [name, bytes] => do
      let name ← textOfValue? name
      let bytes ← bytesOfValue? bytes
      return { name, bytes }
  | _ => none

/-- The cases in the text of a corpus file. -/
def casesOfText? (text : String) : Option (List Case) :=
  match Value.ofText? text with
  | some (.array items) => items.mapM Case.ofValue?
  | _ => none

/-- The report as JSON. -/
def Report.json (r : Report) : String :=
  let decimal := Numeral.decimal
  let file (tally : FileTally) := Json.objectBlock 3
    [("cases", decimal tally.cases), ("failures", decimal tally.failures)]
  Json.objectBlock 1
    [ ("model", Json.stringText r.model),
      ("total_cases", decimal r.totalCases),
      ("failures", decimal r.failures),
      ("files", Json.objectBlock 2 (r.files.map fun (name, tally) => (name, file tally))),
      ("failure_samples", Json.arrayBlock 2 (r.failureSamples.map Json.stringText)) ]

/-- Corpus files and reports in JSON. -/
def Format.json : Format where
  cases? contents := Text.ofBytes? contents >>= casesOfText?
  report := Report.json

end Corpus

end Iapx86
