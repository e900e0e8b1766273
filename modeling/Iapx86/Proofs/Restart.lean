import Iapx86.Proofs.AddressText
import Iapx86.Proofs.Errors
import Iapx86.Proofs.Listing

/-!
# Listings that are begun in the middle

Nothing is carried from one instruction to the next but the address. So a listing that is begun
where a line of another one begins, at the address of that line, goes on as the other one does, to
the same end (`CommandLine.disassemble_drop`). The address that the line shows is enough to begin
there: it can be given to the command line as it is printed, behind a mark
(`CommandLine.disassemble_restart`).
-/

namespace Iapx86

/-! ## The lines from one on -/

theorem linesAt_take (address : Nat) (code : List UInt8) (ds : List DecodedInstruction) (i : Nat) :
    (linesAt address code ds).take i = linesAt address code (ds.take i) := by
  induction i generalizing address code ds with
  | zero => rfl
  | succ i ih =>
      cases ds with
      | nil => rfl
      | cons d ds => rw [linesAt_cons, List.take_succ_cons, ih, List.take_succ_cons, linesAt_cons]

theorem linesAt_drop (address : Nat) (code : List UInt8) (ds : List DecodedInstruction) (i : Nat) :
    (linesAt address code ds).drop i =
      linesAt (address + totalLength (ds.take i)) (code.drop (totalLength (ds.take i)))
        (ds.drop i) := by
  induction i generalizing address code ds with
  | zero => rfl
  | succ i ih =>
      cases ds with
      | nil => rfl
      | cons d ds =>
          rw [linesAt_cons, List.drop_succ_cons, ih, List.take_succ_cons, totalLength_cons,
            List.drop_drop, List.drop_succ_cons, Nat.add_assoc]

theorem totalLength_take_le (ds : List DecodedInstruction) (i : Nat) :
    totalLength (ds.take i) ≤ totalLength ds := by
  have hsplit := congrArg totalLength (List.take_append_drop i ds)
  simp only [totalLength, List.map_append, List.sum_append] at hsplit
  exact Nat.le.intro hsplit

/-- A line shows the address of the first byte behind the lines before it, and the bytes from there
on. -/
theorem getElem?_linesAt {address : Nat} {code : List UInt8} {ds : List DecodedInstruction}
    {i : Nat} {line : ListingLine} (h : (linesAt address code ds)[i]? = some line) :
    line.address = address + totalLength (ds.take i) ∧
      line.bytes <+: code.drop (totalLength (ds.take i)) := by
  rw [← List.head?_drop, linesAt_drop] at h
  cases hds : ds.drop i with
  | nil =>
      rw [hds] at h
      cases h
  | cons d rest =>
      rw [hds] at h
      cases h
      exact ⟨rfl, List.take_prefix d.length _⟩

/-! ## The program -/

namespace CommandLine

variable {o : Options}

/-- The number of bytes before a line. -/
def offsetOf (o : Options) (contents : List UInt8) (i : Nat) : Nat :=
  (((linesOf o contents).take i).map (·.bytes.length)).sum

theorem offsetOf_eq (o : Options) (contents : List UInt8) (i : Nat) :
    offsetOf o contents i = totalLength ((decodeAll o.model contents).1.take i) := by
  have hwhole := totalLength_decodeAll_le o.model contents
  have hle : totalLength ((decodeAll o.model contents).1.take i) ≤ contents.length :=
    (totalLength_take_le _ i).trans hwhole
  rw [offsetOf, linesOf_eq, linesAt_take, length_bytes_linesAt o.origin hle]
  rfl

theorem disassemble_eq (hsize : o.chunkSize ≠ 0) (hlimit : o.chunkSize ≤ capacityLimit)
    (contents : List UInt8) :
    disassemble o (.ok contents) =
      { status := 0
        lines := (linesOf o contents).map fun line => if o.json then line.json else line.text
        errors := (endOf o contents).incompleteText?.toList } :=
  (disassembleWith_eq _ hsize contents).trans (if_pos hlimit)

/-- What is printed stands for a line, which shows the address of its bytes in the file. -/
theorem exists_line {contents : List UInt8} {i : Nat} {text : String}
    (h : (disassemble o (.ok contents)).lines[i]? = some text) :
    o.chunkSize ≠ 0 ∧ o.chunkSize ≤ capacityLimit ∧
      ∃ line, (linesOf o contents)[i]? = some line ∧
        text = (if o.json then line.json else line.text) ∧
        line.address = o.origin + offsetOf o contents i ∧
        line.bytes <+: contents.drop (offsetOf o contents i) := by
  have hsize : o.chunkSize ≠ 0 := by
    intro hzero
    rw [disassemble, disassembleWith, if_pos hzero] at h
    cases h
  have hlimit : o.chunkSize ≤ capacityLimit := by
    by_contra hlarge
    rw [disassemble, disassembleWith_eq _ hsize, if_neg hlarge] at h
    cases h
  rw [disassemble_eq hsize hlimit] at h
  dsimp only at h
  rw [List.getElem?_map, Option.map_eq_some_iff] at h
  obtain ⟨line, hline, hrender⟩ := h
  have hplace := hline
  rw [linesOf_eq] at hplace
  obtain ⟨haddress, hbytes⟩ := getElem?_linesAt hplace
  rw [← offsetOf_eq] at haddress hbytes
  exact ⟨hsize, hlimit, line, hline, hrender.symm, haddress, hbytes⟩

/-- From a line on, a file is listed as the bytes from there on are at the address of the line. -/
theorem disassemble_drop (hsize : o.chunkSize ≠ 0) (hlimit : o.chunkSize ≤ capacityLimit)
    (input : String) (contents : List UInt8) (i : Nat) :
    disassemble { o with input, origin := o.origin + offsetOf o contents i }
        (.ok (contents.drop (offsetOf o contents i))) =
      { disassemble o (.ok contents) with
        lines := (disassemble o (.ok contents)).lines.drop i } := by
  have hfound := decodeAll_drop o.model contents i
  change decodeAll o.model (contents.drop (totalLength _)) = _ at hfound
  rw [← offsetOf_eq] at hfound
  let o' : Options := { o with input, origin := o.origin + offsetOf o contents i }
  have hsize' : o'.chunkSize ≠ 0 := hsize
  have hlines : linesOf o' (contents.drop (offsetOf o contents i)) =
      (linesOf o contents).drop i := by
    rw [linesOf_eq, linesOf_eq, linesAt_drop, ← offsetOf_eq, hfound]
  have hend : (endOf o' (contents.drop (offsetOf o contents i))).incompleteText? =
      (endOf o contents).incompleteText? := by
    obtain ⟨hfollows, hpending⟩ := endOf_eq o contents
    obtain ⟨hfollows', hpending'⟩ := endOf_eq o' (contents.drop (offsetOf o contents i))
    rw [hfound, ← hpending] at hpending'
    exact hfollows.incompleteText?_congr hfollows' hpending'
  rw [disassemble_eq hsize hlimit, disassemble_eq hsize' hlimit, hlines, hend, List.map_drop]

theorem mark_append (cs : List Char) :
    "0x" ++ String.ofList cs = String.ofList ('0' :: 'x' :: cs) := by
  rw [← String.toList_inj]
  simp

/-- Where the listing begins is an option of its own. -/
theorem Arguments.options_origin {a : Arguments} (ha : a.options = .ok o) (input : String)
    {text : String} {address : Nat} (htext : addressOfText text = .ok address) :
    { a with input, origin := some text }.options = .ok { o with input, origin := address } := by
  unfold options at ha ⊢
  obtain ⟨model, hmodel, ha⟩ := bind_eq_ok_iff.mp ha
  obtain ⟨size, hsize, ha⟩ := bind_eq_ok_iff.mp ha
  obtain ⟨origin, -, ha⟩ := bind_eq_ok_iff.mp ha
  cases ha
  dsimp only
  rw [hmodel, hsize, optional, htext]
  rfl

/-- A printed address is one to begin a listing at. As the listing prints it, behind a mark, or in
decimal, with any blanks around, it is read as the address; and digits that denote a number beyond
the limit are refused, whatever zeros are in front. Whatever file is listed, and from whatever
origin, as long as no address behind a line reaches the limit: each line that is printed begins with
the address of its first byte, and when the bytes of the file from that one on are listed with this
address as origin, and with all other options as before, just the lines from that one on are
printed, and the same is said at the end. -/
theorem disassemble_restart :
    (∀ (line : ListingLine) (before behind : List Char), line.address < wordLimit →
      (∀ c ∈ before, Text.isBlank c = true) → (∀ c ∈ behind, Text.isBlank c = true) →
        addressOfText (String.ofList (before ++ '0' :: 'x' :: line.addressText ++ behind)) =
            .ok line.address ∧
          addressOfText (String.ofList (before ++ Numeral.digits 10 line.address ++ behind)) =
            .ok line.address) ∧
    (∀ (n : Nat) (cs before behind : List Char), wordLimit ≤ n →
      (∀ c ∈ before, Text.isBlank c = true) → (∀ c ∈ behind, Text.isBlank c = true) →
        (Numeral.Denotes 10 cs n →
          addressOfText (String.ofList (before ++ cs ++ behind)) = .error ⟨cs, .tooLarge⟩) ∧
        (Numeral.Denotes 16 cs n →
          addressOfText (String.ofList (before ++ '0' :: 'x' :: cs ++ behind)) =
            .error ⟨'0' :: 'x' :: cs, .tooLarge⟩)) ∧
    ∀ (a : Arguments) (o : Options) (contents : List UInt8) (input : String) (i : Nat)
      (text : String), a.options = .ok o →
      (∀ line ∈ linesOf o contents, line.address + line.bytes.length < wordLimit) →
      (disassemble o (.ok contents)).lines[i]? = some text →
        ∃ line o', (linesOf o contents)[i]? = some line ∧
          text = (if o.json then line.json else line.text) ∧
          line.text.toList.takeWhile (· ≠ ' ') = line.addressText ∧
          line.address = o.origin + offsetOf o contents i ∧
          line.bytes <+: contents.drop (offsetOf o contents i) ∧
          { a with input, origin := some ("0x" ++ String.ofList line.addressText) }.options =
            .ok o' ∧
          disassemble o' (.ok (contents.drop (offsetOf o contents i))) =
            { disassemble o (.ok contents) with
              lines := (disassemble o (.ok contents)).lines.drop i } := by
  refine ⟨fun line before behind hline hbefore hbehind =>
      ⟨addressOfText_addressText hline hbefore hbehind, ?_⟩,
    fun n cs before behind hn hbefore hbehind => ⟨fun h => ?_, fun h => ?_⟩,
    fun a o contents input i text ha hfits htext => ?_⟩
  · have hdigits : Numeral.Denotes 10 (Numeral.digits 10 line.address) line.address :=
      Numeral.denotes_digits (by decide) (by decide) line.address
    rw [addressOfText_decimal hbefore hbehind hdigits, if_pos hline]
  · rw [addressOfText_decimal hbefore hbehind h, if_neg (Nat.not_lt.mpr hn)]
  · rw [addressOfText_hexadecimal hbefore hbehind h, if_neg (Nat.not_lt.mpr hn)]
  · obtain ⟨hsize, hlimit, line, hline, hrender, haddress, hbytes⟩ := exists_line htext
    have hfit : line.address < wordLimit :=
      Nat.lt_of_le_of_lt (Nat.le_add_right _ _) (hfits line (List.mem_of_getElem? hline))
    have horigin : addressOfText ("0x" ++ String.ofList line.addressText) = .ok line.address := by
      have hmarked := addressOfText_addressText hfit (List.forall_mem_nil _)
        (List.forall_mem_nil _)
      rw [List.nil_append, List.append_nil] at hmarked
      rw [mark_append, hmarked]
    refine ⟨line, { o with input, origin := line.address }, hline, hrender, line.takeWhile_text,
      haddress, hbytes, a.options_origin ha input horigin, ?_⟩
    rw [haddress]
    exact disassemble_drop hsize hlimit input contents i

/-- The third line is behind a byte that is no instruction, at an address of six digits. -/
theorem disassemble_restart_undefined :
    let a : Arguments := { input := "a.bin", origin := some "0xFFFFF" }
    let o : Options := { input := "a.bin", origin := 0xFFFFF }
    let contents := [0x90, 0x63, 0xB8, 0x34, 0x12, 0xB8]
    addressOfText " 0x0002A\n" = .ok 42 ∧ addressOfText " 42\n" = .ok 42 ∧
      addressOfText " 018446744073709551616\n" =
        .error ⟨"018446744073709551616".toList, .tooLarge⟩ ∧
      addressOfText " 0x10000000000000000\n" =
        .error ⟨"0x10000000000000000".toList, .tooLarge⟩ ∧
      a.options = .ok o ∧
      (∀ line ∈ linesOf o contents, line.address + line.bytes.length < wordLimit) ∧
      (disassemble o (.ok contents)).lines[2]? = some "100001  B83412          mov ax, 0x1234" ∧
      ∃ o', { a with input := "b.bin", origin := some "0x100001" }.options = .ok o' ∧
        disassemble o' (.ok [0xB8, 0x34, 0x12, 0xB8]) =
          { status := 0
            lines := ["100001  B83412          mov ax, 0x1234"]
            errors := ["(incomplete: 2 more bytes needed)"] } := by
  intro a o contents
  obtain ⟨hread, hlarge, hrestart⟩ := disassemble_restart
  have hblank : ∀ c ∈ [' '], Text.isBlank c = true := List.forall_mem_singleton.mpr rfl
  have hnewline : ∀ c ∈ ['\n'], Text.isBlank c = true := List.forall_mem_singleton.mpr rfl
  have hline := hread ⟨42, [], .undefined⟩ [' '] ['\n'] (by decide) hblank hnewline
  have hten : Numeral.Denotes 10 "018446744073709551616".toList wordLimit :=
    ⟨by decide +kernel, by decide +kernel⟩
  have hsixteen : Numeral.Denotes 16 "10000000000000000".toList wordLimit :=
    ⟨by decide +kernel, by decide +kernel⟩
  have hdecimal := (hlarge _ _ [' '] ['\n'] (Nat.le_refl _) hblank hnewline).1 hten
  have hhexadecimal := (hlarge _ _ [' '] ['\n'] (Nat.le_refl _) hblank hnewline).2 hsixteen
  have ha : a.options = .ok o := by rfl
  have hfits : ∀ line ∈ linesOf o contents, line.address + line.bytes.length < wordLimit := by
    decide +kernel
  have htext : (disassemble o (.ok contents)).lines[2]? =
      some "100001  B83412          mov ax, 0x1234" := by
    decide +kernel
  obtain ⟨line, o', hthird, -, -, -, -, ho', houtput⟩ :=
    hrestart a o contents "b.bin" 2 _ ha hfits htext
  have haddress :
      (linesOf o contents)[2]?.map (fun line => "0x" ++ String.ofList line.addressText) =
        some "0x100001" := by
    decide +kernel
  rw [hthird, Option.map_some, Option.some.injEq] at haddress
  rw [haddress] at ho'
  refine ⟨hline.1, hline.2, hdecimal, hhexadecimal, ha, hfits, htext, o', ho', ?_⟩
  have hdrop : contents.drop (offsetOf o contents 2) = [0xB8, 0x34, 0x12, 0xB8] := by
    decide +kernel
  rw [← hdrop, houtput]
  decide +kernel

end CommandLine

end Iapx86
