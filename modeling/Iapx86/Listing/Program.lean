import Iapx86.Listing.Json
import Iapx86.Model.Name
import Iapx86.Text.Blank
import Iapx86.Text.Quoted

/-!
# The disassembler

What the disassembler is asked for, and what it prints. `Arguments` are the texts of its options and
`Options` what they mean; `disassembleWith` goes from the options and the contents of the file to
everything that is printed, however records are written, and `disassemble` writes them in JSON.

How the arguments are found on a command line is not a matter of this module.
-/

namespace Iapx86

namespace CommandLine

/-- The texts of the options. -/
structure Arguments where
  input : String
  model : Option String := none
  chunkSize : Option String := none
  origin : Option String := none
  json : Bool := false
  deriving DecidableEq, Repr

/-- What the disassembler is asked for. -/
structure Options where
  input : String
  model : Model := .i8086
  /-- The number of bytes that are read at a time. -/
  chunkSize : Nat := 4096
  /-- The address of the first byte. -/
  origin : Nat := 0
  /-- Whether lines are printed as JSON. -/
  json : Bool := false
  deriving DecidableEq, Repr

/-- A text that is no address, without the blanks around it. -/
structure InvalidAddress where
  text : List Char
  cause : Numeral.Error
  deriving DecidableEq, Repr

/-- What is said of a text that is no address. -/
def InvalidAddress.message (e : InvalidAddress) : String :=
  "invalid address " ++ Text.quoted e.text ++ ": " ++ e.cause.message

/-- The limit of addresses and sizes. -/
def wordLimit : Nat := UInt64.size

/-- Reads an address, which is decimal unless it is marked as hexadecimal. -/
def addressOfText (text : String) : Except InvalidAddress Nat :=
  let trimmed := Text.trim text.toList
  let result := match trimmed with
    | '0' :: 'x' :: digits | '0' :: 'X' :: digits => Numeral.read 16 wordLimit digits
    | digits => Numeral.read 10 wordLimit digits
  result.mapError fun cause => ⟨trimmed, cause⟩

/-- Why an option is refused. -/
inductive Refusal where
  | model (value : String) (cause : UnknownModel)
  | chunkSize (value : String) (cause : Numeral.Error)
  | origin (value : String) (cause : InvalidAddress)
  deriving DecidableEq, Repr

/-- What an option means that may be absent. -/
def optional {ε α : Type} (read : String → Except ε α) (refuse : String → ε → Refusal)
    (absent : α) : Option String → Except Refusal α
  | none => .ok absent
  | some value => (read value).mapError (refuse value)

/-- What the arguments mean. The first one that is refused is reported. -/
def Arguments.options (a : Arguments) : Except Refusal Options := do
  let model ← optional Model.ofText .model .i8086 a.model
  let chunkSize ← optional (fun s => Numeral.read 10 wordLimit s.toList) .chunkSize 4096 a.chunkSize
  let origin ← optional addressOfText .origin 0 a.origin
  return { input := a.input, model, chunkSize, origin, json := a.json }

/-- What a program leaves behind. -/
structure Output where
  status : Nat
  lines : List String := []
  errors : List String := []
  deriving DecidableEq, Repr

/-- What is printed when the chunks are to hold nothing. -/
def emptyChunksOutput : Output :=
  { status := 1, errors := ["Error: --chunk-size must be at least 1"] }

/-- What is printed when the file cannot be opened. -/
def unopenedOutput (input reason : String) : Output :=
  { status := 1, errors := ["Error: open input " ++ input, "", "Caused by:", "    " ++ reason] }

/-- The largest number of bytes that there is a buffer for. -/
def capacityLimit : Nat := wordLimit / 2 - 1

/-- What is left behind when there is no buffer for a chunk. The program has come to a halt by
itself, and says why, apart from where that was. -/
def overflowOutput : Output := { status := 101, errors := ["capacity overflow"] }

/-- The listing of a file. -/
def listingOutput (write : ListingRecord → String) (o : Options) (contents : List UInt8) :
    Output :=
  let (lines, last) := (Listing.new o.model o.origin).feedAll (chunksOf o.chunkSize contents)
  { status := 0,
    lines := lines.map fun line => if o.json then write line.record else line.text,
    errors := last.incompleteText?.toList }

/-- What the options come to, for a file of these contents or one that cannot be opened for a
reason. The size of the chunks is looked at before the file is opened, and a buffer for them is made
afterwards. -/
def disassembleWith (write : ListingRecord → String) (o : Options)
    (contents : Except String (List UInt8)) : Output :=
  if o.chunkSize = 0 then emptyChunksOutput
  else match contents with
    | .error reason => unopenedOutput o.input reason
    | .ok bytes =>
        if o.chunkSize ≤ capacityLimit then listingOutput write o bytes else overflowOutput

/-- What the options come to, with records in JSON. -/
def disassemble (o : Options) (contents : Except String (List UInt8)) : Output :=
  disassembleWith ListingRecord.json o contents

end CommandLine

end Iapx86
