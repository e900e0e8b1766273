import Iapx86.Listing.Program
import Iapx86.Proofs.Numerals
import Iapx86.Proofs.Shortfall
import Iapx86.Proofs.Stream

/-!
# Listings of code that comes in chunks

A listing is made of chunks, but what it says is a matter of the code alone: `linesAt` goes through
the instructions that `decodeAll` finds, with the address and the code from there on carried along.
Between chunks, decoder and bytes kept are in step (`Listing.Follows`), so one chunk adds the lines
that are found in the bytes kept and the chunk together (`Listing.Follows.feed`), and what it leaves
over is what is left over there. All chunks together then add the lines of the whole code
(`Listing.Follows.feedAll`).
-/

namespace Iapx86

/-- The number of bytes of the instructions. -/
def totalLength (instructions : List DecodedInstruction) : Nat :=
  (instructions.map (·.length)).sum

@[simp] theorem totalLength_nil : totalLength [] = 0 := rfl

@[simp] theorem totalLength_cons (d : DecodedInstruction) (ds : List DecodedInstruction) :
    totalLength (d :: ds) = d.length + totalLength ds := List.sum_cons

/-- The lines of code at an address, when these are its instructions. -/
def linesAt (address : Nat) (code : List UInt8) : List DecodedInstruction → List ListingLine
  | [] => []
  | d :: ds =>
      { address, bytes := code.take d.length, instruction := d.instruction } ::
        linesAt (address + d.length) (code.drop d.length) ds

@[simp] theorem linesAt_nil (address : Nat) (code : List UInt8) :
    linesAt address code [] = [] := rfl

theorem linesAt_cons (address : Nat) (code : List UInt8) (d : DecodedInstruction)
    (ds : List DecodedInstruction) :
    linesAt address code (d :: ds) =
      { address, bytes := code.take d.length, instruction := d.instruction } ::
        linesAt (address + d.length) (code.drop d.length) ds := rfl

theorem linesAt_append (address : Nat) (code : List UInt8) (ds es : List DecodedInstruction) :
    linesAt address code (ds ++ es) =
      linesAt address code ds ++
        linesAt (address + totalLength ds) (code.drop (totalLength ds)) es := by
  induction ds generalizing address code with
  | nil => rfl
  | cons d ds ih =>
      rw [List.cons_append, linesAt_cons, linesAt_cons, ih, totalLength_cons, List.cons_append,
        List.drop_drop, Nat.add_assoc]

/-- Code behind the instructions is not in their lines. -/
theorem linesAt_code_append (address : Nat) {code : List UInt8} {ds : List DecodedInstruction}
    (h : totalLength ds ≤ code.length) (more : List UInt8) :
    linesAt address (code ++ more) ds = linesAt address code ds := by
  induction ds generalizing address code with
  | nil => rfl
  | cons d ds ih =>
      rw [totalLength_cons] at h
      have hrest : totalLength ds ≤ (code.drop d.length).length := by
        rw [List.length_drop]
        omega
      rw [linesAt_cons, linesAt_cons, List.take_append_of_le_length (by omega),
        List.drop_append_of_le_length (by omega), ih _ hrest]

theorem length_bytes_linesAt (address : Nat) {code : List UInt8} {ds : List DecodedInstruction}
    (h : totalLength ds ≤ code.length) :
    (linesAt address code ds).map (·.bytes.length) = ds.map (·.length) := by
  induction ds generalizing address code with
  | nil => rfl
  | cons d ds ih =>
      rw [totalLength_cons] at h
      have hrest : totalLength ds ≤ (code.drop d.length).length := by
        rw [List.length_drop]
        omega
      rw [linesAt_cons, List.map_cons, List.map_cons, ih _ hrest, List.length_take,
        Nat.min_eq_left (by omega)]

theorem totalLength_decodeAll_le (model : Model) (code : List UInt8) :
    totalLength (decodeAll model code).1 ≤ code.length :=
  (sum_length_decodeAll model code) ▸ Nat.le_add_right _ _

namespace Listing

/-- Decoder and bytes kept are in step. -/
structure Follows (model : Model) (l : Listing) : Prop where
  inProgress : l.decoder.InProgress model l.pending
  shortfall_eq : l.shortfall = l.decoder.shortfall

theorem follows_new (model : Model) (origin : Nat) : (new model origin).Follows model :=
  { inProgress := .new model
    shortfall_eq := rfl }

variable {model : Model} {l : Listing}

theorem Follows.decodeAll_pending (h : l.Follows model) :
    decodeAll model l.pending = ([], l.pending) :=
  decodeAll_of_needMore h.inProgress.decodeOne_pending

/-- A chunk adds the lines of the instructions that it completes. -/
theorem Follows.feed (h : l.Follows model) (chunk : List UInt8) :
    let found := decodeAll model (l.pending ++ chunk)
    (l.feed chunk).1 = linesAt l.address (l.pending ++ chunk) found.1 ∧
      (l.feed chunk).2.Follows model ∧ (l.feed chunk).2.pending = found.2 ∧
      (l.feed chunk).2.address = l.address + totalLength found.1 := by
  induction hn : chunk.length using Nat.strongRecOn generalizing l chunk with
  | ind n ih =>
      intro found
      by_cases hne : chunk = []
      · have hfound : found = ([], l.pending) := by
          change decodeAll model (l.pending ++ chunk) = _
          rw [hne, List.append_nil, h.decodeAll_pending]
        rw [hne, feed_nil, hfound]
        exact ⟨rfl, h, rfl, rfl⟩
      cases hdecode : l.decoder.decode chunk with
      | mk result d =>
          cases result with
          | needMore atLeast =>
              have hprogress := h.inProgress.decode_needMore hdecode
              have hfound : found = ([], l.pending ++ chunk) :=
                decodeAll_of_needMore hprogress.decodeOne_pending
              rw [feed_of_needMore hne hdecode, hfound]
              exact
                ⟨rfl, ⟨hprogress, (Decoder.shortfall_of_decode_needMore hdecode).symm⟩, rfl, rfl⟩
          | complete length i =>
              have hlength := length_of_complete (congrArg Prod.fst hdecode)
              have hone : decodeOne model (l.pending ++ chunk) = .complete length i := by
                rw [h.inProgress.decode_eq] at hdecode
                exact congrArg Prod.fst hdecode
              have htake : (l.pending ++ chunk).take length =
                  l.pending ++ chunk.take (length - l.pending.length) := by
                rw [List.take_append, List.take_of_length_le (by omega)]
              have hdrop : (l.pending ++ chunk).drop length =
                  chunk.drop (length - l.pending.length) := by
                rw [List.drop_append, List.drop_eq_nil_of_le (by omega), List.nil_append]
              have hnext : (between d (l.address + length)
                  (Decoder.consumed_of_decode_complete hdecode)).Follows model := by
                have hnew := h.inProgress.decode_complete hdecode
                cases hnew
                exact { inProgress := .new model, shortfall_eq := rfl }
              have hshorter : (chunk.drop (length - l.pending.length)).length < n := by
                rw [List.length_drop]
                omega
              obtain ⟨hlines, hfollows, hpending, haddress⟩ := ih _ hshorter hnext _ rfl
              have hfound : found = _ := decodeAll_of_complete hone
              rw [hdrop] at hfound
              rw [feed_of_complete hne hdecode, hfound, linesAt_cons, totalLength_cons, hdrop,
                htake, ← Nat.add_assoc]
              exact ⟨congrArg _ hlines, hfollows, hpending, haddress⟩

/-- All chunks add the lines of the code that they make. -/
theorem Follows.feedAll (h : l.Follows model) (chunks : List (List UInt8)) :
    let code := l.pending ++ chunks.flatten
    (l.feedAll chunks).1 = linesAt l.address code (decodeAll model code).1 ∧
      (l.feedAll chunks).2.Follows model ∧
      (l.feedAll chunks).2.pending = (decodeAll model code).2 := by
  induction chunks generalizing l with
  | nil =>
      intro code
      have hcode : code = l.pending := List.append_nil _
      rw [feedAll_nil, hcode, h.decodeAll_pending]
      exact ⟨rfl, h, rfl⟩
  | cons chunk chunks ih =>
      intro code
      have hcode : code = l.pending ++ chunk ++ chunks.flatten := (List.append_assoc _ _ _).symm
      obtain ⟨hlines, hfollows, hpending, haddress⟩ := h.feed chunk
      obtain ⟨hrest, hlast, hleft⟩ := ih hfollows
      have hfits := totalLength_decodeAll_le model (l.pending ++ chunk)
      have hfound : decodeAll model code = _ :=
        hcode ▸ decodeAll_append model (l.pending ++ chunk) chunks.flatten
      have hhead : linesAt l.address code (decodeAll model (l.pending ++ chunk)).1 =
          linesAt l.address (l.pending ++ chunk) (decodeAll model (l.pending ++ chunk)).1 :=
        hcode ▸ linesAt_code_append l.address hfits chunks.flatten
      -- What the chunk leaves over is the code behind the lines that it adds.
      have hdrop : code.drop (totalLength (decodeAll model (l.pending ++ chunk)).1) =
          (decodeAll model (l.pending ++ chunk)).2 ++ chunks.flatten := by
        rw [hcode, List.drop_append_of_le_length hfits, snd_decodeAll]
        rfl
      rw [hpending, haddress] at hrest
      rw [hpending] at hleft
      rw [feedAll_cons, hlines, hrest, hfound, linesAt_append, hhead, hdrop]
      exact ⟨rfl, hlast, hleft⟩

theorem Follows.incompleteText?_eq (h : l.Follows model) :
    l.incompleteText? =
      if l.pending = [] then none
      else
        some ("(incomplete: " ++ Numeral.decimal l.decoder.shortfall ++ " more bytes needed)") := by
  unfold incompleteText?
  split
  · rfl
  · next hne =>
      have hconsumed : l.decoder.consumed ≠ 0 := by
        rw [l.consumed_eq]
        exact fun hzero => hne (List.eq_nil_of_length_eq_zero hzero)
      have hpos := h.inProgress.isSound.shortfall_pos hconsumed
      rw [h.shortfall_eq, Nat.max_eq_left hpos]

/-- What is said at the end depends on the bytes that are left over. -/
theorem Follows.incompleteText?_congr {l' : Listing} (h : l.Follows model) (h' : l'.Follows model)
    (hpending : l'.pending = l.pending) : l'.incompleteText? = l.incompleteText? := by
  have hone := h.inProgress.decodeOne_pending
  have hone' := h'.inProgress.decodeOne_pending
  rw [hpending, hone] at hone'
  rw [h.incompleteText?_eq, h'.incompleteText?_eq, hpending, DecodeResult.needMore.inj hone']

end Listing

/-! ## The program -/

namespace CommandLine

/-- The lines of a file. -/
def linesOf (o : Options) (contents : List UInt8) : List ListingLine :=
  ((Listing.new o.model o.origin).feedAll (chunksOf o.chunkSize contents)).1

/-- What is behind the last line of a file. -/
def endOf (o : Options) (contents : List UInt8) : Listing :=
  ((Listing.new o.model o.origin).feedAll (chunksOf o.chunkSize contents)).2

theorem linesOf_eq (o : Options) (contents : List UInt8) :
    linesOf o contents = linesAt o.origin contents (decodeAll o.model contents).1 := by
  obtain ⟨hlines, -, -⟩ :=
    (Listing.follows_new o.model o.origin).feedAll (chunksOf o.chunkSize contents)
  rw [flatten_chunksOf] at hlines
  exact hlines

theorem endOf_eq (o : Options) (contents : List UInt8) :
    (endOf o contents).Follows o.model ∧
      (endOf o contents).pending = (decodeAll o.model contents).2 := by
  obtain ⟨-, hfollows, hpending⟩ :=
    (Listing.follows_new o.model o.origin).feedAll (chunksOf o.chunkSize contents)
  rw [flatten_chunksOf] at hpending
  exact ⟨hfollows, hpending⟩

/-- Once the size of the chunks has been looked at, it matters only in so far as there is a buffer
for them. -/
theorem disassembleWith_eq (write : ListingRecord → String) {o : Options} (h : o.chunkSize ≠ 0)
    (contents : List UInt8) :
    disassembleWith write o (.ok contents) =
      if o.chunkSize ≤ capacityLimit then
        { status := 0
          lines := (linesOf o contents).map fun line =>
            if o.json then write line.record else line.text
          errors := (endOf o contents).incompleteText?.toList }
      else overflowOutput :=
  if_neg h

end CommandLine

/-! ## What is listed -/

end Iapx86
