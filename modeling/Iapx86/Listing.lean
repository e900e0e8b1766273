import Iapx86.Decoder.Progress
import Iapx86.Instruction.Text

/-!
# Listings

The lines of a listing of machine code: the address of each instruction, its bytes and its text, in
columns or as a `ListingRecord`, which is written in whatever format is asked for. A `Listing` takes
the code in chunks, as they come from a file. Between chunks it remembers the decoder, the address
of the instruction in progress and the bytes of it that have come so far. The decoder counts these
bytes too, and a listing in which the two numbers differ cannot be built.
-/

namespace Iapx86

/-- One line of a listing. -/
structure ListingLine where
  address : Nat
  bytes : List UInt8
  instruction : Instruction
  deriving DecidableEq, Repr

/-- What a line says, field by field. -/
structure ListingRecord where
  address : Nat
  /-- The bytes in upper-case hexadecimal. -/
  bytes : String
  /-- The number of bytes. -/
  length : Nat
  mnemonic : String
  text : String
  undefined : Bool
  deriving DecidableEq, Repr

/-- Bytes in upper-case hexadecimal. -/
def hexText (bytes : List UInt8) : List Char :=
  bytes.flatMap fun b => (Numeral.byteDigits b).map Char.toUpper

namespace ListingLine

/-- The bytes in upper-case hexadecimal. -/
def bytesText (line : ListingLine) : List Char := hexText line.bytes

/-- The address in upper-case hexadecimal, of five digits at least. -/
def addressText (line : ListingLine) : List Char :=
  Numeral.padLeft 5 '0' ((Numeral.digits 16 line.address).map Char.toUpper)

/-- The line in columns: address, bytes and text. -/
def text (line : ListingLine) : String :=
  String.ofList line.addressText ++ "  "
    ++ String.ofList (Numeral.padRight 14 line.bytesText) ++ "  " ++ line.instruction.text

/-- The line as a record. -/
def record (line : ListingLine) : ListingRecord where
  address := line.address
  bytes := String.ofList line.bytesText
  length := line.bytes.length
  mnemonic := line.instruction.mnemonic
  text := line.instruction.text
  undefined := line.instruction.isUndefined

end ListingLine

/-- A listing in progress. -/
structure Listing where
  decoder : Decoder
  /-- The address of the instruction in progress. -/
  address : Nat
  /-- The bytes of the instruction in progress. -/
  pending : List UInt8 := []
  /-- The bytes that the instruction in progress needs at least. -/
  shortfall : Nat := 0
  /-- The decoder has taken in just as many bytes. -/
  consumed_eq : decoder.consumed = pending.length
  deriving DecidableEq, Repr

namespace Listing

/-- A listing with no instruction in progress. -/
def between (decoder : Decoder) (address : Nat) (h : decoder.consumed = 0) : Listing :=
  { decoder, address, pending := [], consumed_eq := h }

/-- A listing of code at an address. -/
def new (model : Model) (origin : Nat) : Listing := between (.new model) origin rfl

/-- A completed instruction has a byte of the chunk at least, and none from beyond its end. -/
theorem length_of_complete {l : Listing} {chunk : List UInt8} {length : Nat} {i : Instruction}
    (h : (l.decoder.decode chunk).1 = .complete length i) :
    l.pending.length < length ∧ length ≤ l.pending.length + chunk.length := by
  rw [← l.consumed_eq]
  exact Decoder.length_of_decode_complete h

/-- Takes in a chunk of code: the lines that it completes, and the listing after it. -/
def feed (l : Listing) (chunk : List UInt8) : List ListingLine × Listing :=
  if chunk = [] then ([], l)
  else
    match _h : l.decoder.decode chunk with
    | (.needMore atLeast, decoder) =>
        ([], { l with
          decoder, pending := l.pending ++ chunk, shortfall := atLeast
          consumed_eq := by
            rw [Decoder.consumed_of_decode_needMore _h, l.consumed_eq, List.length_append] })
    | (.complete length instruction, decoder) =>
        let used := length - l.pending.length
        let line : ListingLine :=
          { address := l.address, bytes := l.pending ++ chunk.take used, instruction }
        let (lines, last) :=
          feed (between decoder (l.address + length) (Decoder.consumed_of_decode_complete _h))
            (chunk.drop used)
        (line :: lines, last)
termination_by chunk.length
decreasing_by
  have hlength := length_of_complete (congrArg Prod.fst _h)
  simp only [List.length_drop]
  omega

@[simp] theorem feed_nil (l : Listing) : l.feed [] = ([], l) := by
  rw [feed, if_pos rfl]

theorem feed_of_needMore {l : Listing} {chunk : List UInt8} {atLeast : Nat} {d : Decoder}
    (hne : chunk ≠ []) (h : l.decoder.decode chunk = (.needMore atLeast, d)) :
    l.feed chunk =
      ([], { l with
        decoder := d, pending := l.pending ++ chunk, shortfall := atLeast
        consumed_eq := by
          rw [Decoder.consumed_of_decode_needMore h, l.consumed_eq, List.length_append] }) := by
  rw [feed, if_neg hne]
  split
  · next h' =>
      rw [h] at h'
      cases h'
      rfl
  · next h' =>
      rw [h] at h'
      cases h'

theorem feed_of_complete {l : Listing} {chunk : List UInt8} {length : Nat} {i : Instruction}
    {d : Decoder} (hne : chunk ≠ []) (h : l.decoder.decode chunk = (.complete length i, d)) :
    let next := between d (l.address + length) (Decoder.consumed_of_decode_complete h)
    let used := length - l.pending.length
    l.feed chunk =
      ({ address := l.address, bytes := l.pending ++ chunk.take used, instruction := i } ::
          (next.feed (chunk.drop used)).1,
        (next.feed (chunk.drop used)).2) := by
  intro next used
  rw [feed, if_neg hne]
  split
  · next h' =>
      rw [h] at h'
      cases h'
  · next h' =>
      rw [h] at h'
      cases h'
      rfl

/-- Takes in one chunk after the other. -/
def feedAll (l : Listing) : List (List UInt8) → List ListingLine × Listing
  | [] => ([], l)
  | chunk :: chunks =>
      let (lines, l) := l.feed chunk
      let (rest, last) := l.feedAll chunks
      (lines ++ rest, last)

@[simp] theorem feedAll_nil (l : Listing) : l.feedAll [] = ([], l) := rfl

theorem feedAll_cons (l : Listing) (chunk : List UInt8) (chunks : List (List UInt8)) :
    l.feedAll (chunk :: chunks) =
      ((l.feed chunk).1 ++ ((l.feed chunk).2.feedAll chunks).1,
        ((l.feed chunk).2.feedAll chunks).2) := rfl

/-- What is said when the code ends in the middle of an instruction. -/
def incompleteText? (l : Listing) : Option String :=
  if l.pending = [] then none
  else some ("(incomplete: " ++ Numeral.decimal (max l.shortfall 1) ++ " more bytes needed)")

end Listing

/-- A list in pieces of one size, or of one if that is none; the last piece may be shorter. -/
def chunksOf {α : Type} (size : Nat) (l : List α) : List (List α) :=
  if _nonempty : l = [] then []
  else l.take (max 1 size) :: chunksOf size (l.drop (max 1 size))
termination_by l.length
decreasing_by
  have := List.length_pos_iff.mpr _nonempty
  simp only [List.length_drop]
  omega

@[simp] theorem chunksOf_nil {α : Type} (size : Nat) : chunksOf size ([] : List α) = [] := by
  rw [chunksOf]
  rfl

theorem chunksOf_of_ne_nil {α : Type} (size : Nat) {l : List α} (h : l ≠ []) :
    chunksOf size l = l.take (max 1 size) :: chunksOf size (l.drop (max 1 size)) := by
  rw [chunksOf, dif_neg h]

/-- The pieces put together are the list. -/
@[simp] theorem flatten_chunksOf {α : Type} (size : Nat) (l : List α) :
    (chunksOf size l).flatten = l := by
  fun_induction chunksOf size l with
  | case1 => rfl
  | case2 l h ih => rw [List.flatten_cons, ih, List.take_append_drop]

/-- No piece is empty. -/
theorem ne_nil_of_mem_chunksOf {α : Type} {size : Nat} {l piece : List α}
    (h : piece ∈ chunksOf size l) : piece ≠ [] := by
  fun_induction chunksOf size l with
  | case1 => simp at h
  | case2 l hne ih =>
      rcases List.mem_cons.mp h with hfirst | hrest
      · intro hnil
        rw [hfirst, List.take_eq_nil_iff] at hnil
        rcases hnil with hsize | hl
        · omega
        · exact hne hl
      · exact ih hrest

end Iapx86
