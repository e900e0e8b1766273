import Iapx86.Json.Text
import Iapx86.Listing

/-!
# Listings in JSON

A record of a listing as a JSON object on one line, with its fields in their order. What is in a
record does not depend on this, and neither does anything else that is listed.
-/

namespace Iapx86

/-- The record as a JSON object. -/
def ListingRecord.json (record : ListingRecord) : String :=
  Json.objectText
    [ ("address", Numeral.decimal record.address),
      ("bytes", Json.stringText record.bytes),
      ("length", Numeral.decimal record.length),
      ("mnemonic", Json.stringText record.mnemonic),
      ("text", Json.stringText record.text),
      ("undefined", Json.boolText record.undefined) ]

/-- The line as a JSON object. -/
def ListingLine.json (line : ListingLine) : String := line.record.json

end Iapx86
