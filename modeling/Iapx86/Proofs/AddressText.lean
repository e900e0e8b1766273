import Iapx86.Listing.Program
import Iapx86.Proofs.Numerals

/-!
# Addresses as they are printed and as they are read

The listing prints an address in hexadecimal, in upper case and with zeros in front; the command
line takes one in decimal, or in hexadecimal behind a mark. Blanks around it do not matter, and
digits are read as the number that they denote, if it is below the limit
(`CommandLine.addressOfText_hexadecimal`, `CommandLine.addressOfText_decimal`). What the listing
prints denotes the address (`ListingLine.denotes_addressText`), so it can be given back to the
command line (`CommandLine.addressOfText_addressText`).
-/

namespace Iapx86

/-! ## Blanks -/

namespace Text

variable {before core behind : List Char}

theorem dropWhile_isBlank_append (hne : core ≠ []) (hcore : ∀ c ∈ core, isBlank c = false)
    (behind : List Char) : (core ++ behind).dropWhile isBlank = core ++ behind := by
  obtain ⟨c, cs, rfl⟩ := List.exists_cons_of_ne_nil hne
  have hc := hcore c List.mem_cons_self
  exact List.dropWhile_cons_of_neg (by simp [hc])

/-- Blanks around a text are trimmed away, and nothing of the text. -/
theorem trim_append (hbefore : ∀ c ∈ before, isBlank c = true) (hne : core ≠ [])
    (hcore : ∀ c ∈ core, isBlank c = false) (hbehind : ∀ c ∈ behind, isBlank c = true) :
    trim (before ++ core ++ behind) = core := by
  have hreverse : ∀ c ∈ behind.reverse, isBlank c = true :=
    fun c hc => hbehind c (List.mem_reverse.mp hc)
  have hcore' : ∀ c ∈ core.reverse, isBlank c = false :=
    fun c hc => hcore c (List.mem_reverse.mp hc)
  have hend := dropWhile_isBlank_append (mt List.reverse_eq_nil_iff.mp hne) hcore' []
  rw [List.append_nil] at hend
  rw [trim, List.append_assoc, List.dropWhile_append_of_pos hbefore,
    dropWhile_isBlank_append hne hcore, List.reverse_append, List.dropWhile_append_of_pos hreverse,
    hend, List.reverse_reverse]

end Text

namespace Numeral

theorem isBlank_of_digitValue? {base : Nat} (hbase : base ≤ 16) {c : Char}
    (h : digitValue? base c ≠ none) : Text.isBlank c = false := by
  obtain ⟨d, hd⟩ := Option.ne_none_iff_exists'.mp h
  exact forall_digit (P := fun c _ => Text.isBlank c = false) (by decide +kernel) hbase hd

theorem Denotes.isBlank_eq_false {base n : Nat} (hbase : base ≤ 16) {cs : List Char}
    (h : Denotes base cs n) : ∀ c ∈ cs, Text.isBlank c = false :=
  fun _ hc => isBlank_of_digitValue? hbase (h.digitValue?_ne_none hc)

end Numeral

/-! ## Reading -/

namespace CommandLine

open Numeral (Denotes)

variable {n : Nat} {before cs behind : List Char}

theorem wordLimit_pos : 0 < wordLimit := by decide

theorem addressOfText_hexadecimal (hbefore : ∀ c ∈ before, Text.isBlank c = true)
    (hbehind : ∀ c ∈ behind, Text.isBlank c = true) (h : Denotes 16 cs n) :
    addressOfText (String.ofList (before ++ '0' :: 'x' :: cs ++ behind)) =
      if n < wordLimit then .ok n else .error ⟨'0' :: 'x' :: cs, .tooLarge⟩ := by
  have hcore : ∀ c ∈ '0' :: 'x' :: cs, Text.isBlank c = false := by
    rintro c (_ | ⟨_, _ | ⟨_, hc⟩⟩)
    · rfl
    · rfl
    · exact h.isBlank_eq_false (by decide) c hc
  have htrim := Text.trim_append hbefore (List.cons_ne_nil _ _) hcore hbehind
  rw [addressOfText, String.toList_ofList, htrim]
  change (Numeral.read 16 wordLimit cs).mapError _ = _
  rw [Numeral.read_of_denotes (by decide) wordLimit_pos h]
  split <;> rfl

/-- Digits to the base ten are not taken for the mark of another. -/
theorem addressOfText_decimal (hbefore : ∀ c ∈ before, Text.isBlank c = true)
    (hbehind : ∀ c ∈ behind, Text.isBlank c = true) (h : Denotes 10 cs n) :
    addressOfText (String.ofList (before ++ cs ++ behind)) =
      if n < wordLimit then .ok n else .error ⟨cs, .tooLarge⟩ := by
  have htrim := Text.trim_append hbefore h.1 (h.isBlank_eq_false (by decide)) hbehind
  have hmark {c : Char} (hc : Numeral.digitValue? 10 c = none) (ds : List Char) :
      cs ≠ '0' :: c :: ds := by
    rintro rfl
    exact h.digitValue?_ne_none (List.mem_cons_of_mem _ List.mem_cons_self) hc
  rw [addressOfText, String.toList_ofList, htrim]
  split
  · next ds => exact absurd rfl (hmark (c := 'x') (by decide) ds)
  · next ds => exact absurd rfl (hmark (c := 'X') (by decide) ds)
  · rw [Numeral.read_of_denotes (by decide) wordLimit_pos h]
    split <;> rfl

end CommandLine

/-! ## Printing -/

namespace ListingLine

theorem denotes_addressText (line : ListingLine) :
    Numeral.Denotes 16 line.addressText line.address := by
  have hdigits : Numeral.Denotes 16 (Numeral.digits 16 line.address) line.address :=
    Numeral.denotes_digits (by decide) (by decide) line.address
  exact (hdigits.map_toUpper (by decide)).padLeft (by decide) 5

/-- The address is what a line begins with, up to the first blank. -/
theorem takeWhile_text (line : ListingLine) :
    line.text.toList.takeWhile (· ≠ ' ') = line.addressText := by
  have hdigit : ∀ c ∈ line.addressText, decide (c ≠ ' ') = true := by
    intro c hc
    refine decide_eq_true fun hblank => ?_
    exact line.denotes_addressText.digitValue?_ne_none hc (by rw [hblank]; decide)
  rw [text, String.toList_append, String.toList_append, String.toList_append, String.toList_append,
    String.toList_ofList, List.append_assoc, List.append_assoc, List.append_assoc,
    List.takeWhile_append_of_pos hdigit]
  exact List.append_nil _

end ListingLine

/-- A printed address is read behind a mark, as what it is. -/
theorem CommandLine.addressOfText_addressText {line : ListingLine}
    (hline : line.address < wordLimit) {before behind : List Char}
    (hbefore : ∀ c ∈ before, Text.isBlank c = true)
    (hbehind : ∀ c ∈ behind, Text.isBlank c = true) :
    addressOfText (String.ofList (before ++ '0' :: 'x' :: line.addressText ++ behind)) =
      .ok line.address := by
  rw [addressOfText_hexadecimal hbefore hbehind line.denotes_addressText, if_pos hline]

end Iapx86
