import Iapx86.Proofs.Corpus.Mnemonic
import Mathlib

/-!
# Names that stand for themselves

The name that is read off a line depends only on the words of the line from the first one on that is
skipped no more (`nameWords`), and of these only on the first, or on two where the first is a call
or a jump. So it does not matter what stands in front that is skipped anyway (`IsLead`), in what
case the letters are, or what follows.

A name that is read off is in lower case, is one word, and is neither skipped itself nor a synonym
of another name (`isCanonical_expectedMnemonic`); and such a name stands for itself
(`IsCanonical.expectedMnemonic_eq`). So reading is a projection.
-/

namespace Iapx86

namespace Corpus

open Text (lower words)

/-! ### The words that a name is read off -/

/-- The words of a line in lower case, from the first one on that is not skipped. -/
def nameWords (line : List Char) : List String :=
  ((words separatesWords (lower line)).map String.ofList).dropWhile (· ∈ modifierWords)

theorem expectedMnemonic_eq (line : String) :
    expectedMnemonic line = mnemonicOfWords (nameWords line.toList) := rfl

theorem separatesWords_toLower (c : Char) : separatesWords c.toLower = separatesWords c := by
  cases hupper : c.isUpper with
  | false => rw [Char.toLower_eq_of_not_isUpper (Bool.eq_false_iff.mp hupper)]
  | true =>
      -- No letter is a separator, in either case.
      have hrange : 65 ≤ c.toNat ∧ c.toNat ≤ 90 := of_decide_eq_true hupper
      have hlower : c.toLower.toNat = c.toNat + 32 := by
        rw [Char.toLower_eq_of_isUpper hupper, Char.toNat_ofNat, if_pos]
        exact .inl (by omega)
      have hletter (d : Char) (hd : 65 ≤ d.toNat) (hd' : d.toNat ≤ 122) :
          separatesWords d = false := by
        have hcomma : d ≠ ',' := by
          rintro rfl
          exact absurd hd (by decide)
        simp only [separatesWords, Text.isBlank, hcomma]
        simp
        omega
      rw [hletter c.toLower (by omega) (by omega), hletter c hrange.1 (by omega)]

theorem forall_separatesWords_lower {gap : List Char} (h : ∀ c ∈ gap, separatesWords c = true) :
    ∀ c ∈ lower gap, separatesWords c = true := by
  intro c hc
  obtain ⟨d, hd, rfl⟩ := List.mem_map.mp hc
  rw [separatesWords_toLower, h d hd]

/-- What may stand before the name of an operation without being part of it: separators, and words
that are skipped, in whatever case and each with separators behind it. -/
inductive IsLead : List Char → Prop
  | separators {gap : List Char} (hgap : ∀ c ∈ gap, separatesWords c = true) : IsLead gap
  | modifier {lead word gap : List Char} (hlead : IsLead lead)
      (hword : String.ofList (lower word) ∈ modifierWords) (hne : gap ≠ [])
      (hgap : ∀ c ∈ gap, separatesWords c = true) : IsLead (lead ++ (word ++ gap))

theorem isWord_of_mem_modifierWords : ∀ w ∈ modifierWords, isWord w.toList = true := by
  decide +kernel

theorem nameWords_separators {gap : List Char} (h : ∀ c ∈ gap, separatesWords c = true)
    (line : List Char) : nameWords (gap ++ line) = nameWords line := by
  rw [nameWords, Text.lower_append, Text.words_append_of_forall (forall_separatesWords_lower h)]
  rfl

theorem nameWords_modifier {word gap : List Char}
    (hword : String.ofList (lower word) ∈ modifierWords) (hne : gap ≠ [])
    (h : ∀ c ∈ gap, separatesWords c = true) (line : List Char) :
    nameWords (word ++ (gap ++ line)) = nameWords line := by
  have hgap := forall_separatesWords_lower h
  have hisWord := isWord_of_mem_modifierWords _ hword
  rw [String.toList_ofList] at hisWord
  obtain ⟨hnonempty, hletters⟩ := isWord_iff.mp hisWord
  have hcut : ∀ c ∈ (lower gap ++ lower line).head?, separatesWords c = true := by
    obtain ⟨s, gap, rfl⟩ := List.exists_cons_of_ne_nil hne
    rintro c ⟨⟩
    exact hgap _ List.mem_cons_self
  rw [nameWords, Text.lower_append, Text.lower_append,
    Text.words_append_of_head? hnonempty hletters hcut, Text.words_append_of_forall hgap,
    List.map_cons, List.dropWhile_cons_of_pos (by simpa using hword)]
  rfl

theorem IsLead.nameWords_append {lead : List Char} (h : IsLead lead) (line : List Char) :
    nameWords (lead ++ line) = nameWords line := by
  induction h generalizing line with
  | separators hgap => exact nameWords_separators hgap line
  | modifier _ hword hne hgap ih =>
      rw [List.append_assoc, ih, List.append_assoc, nameWords_modifier hword hne hgap]

theorem nameWords_append_cons {line : List Char} (hname : nameWords line ≠ []) {s : Char}
    (hs : separatesWords s = true) (more : List Char) :
    nameWords (line ++ s :: more) =
      nameWords line ++ (words separatesWords (lower more)).map String.ofList := by
  have hs' : separatesWords s.toLower = true := (separatesWords_toLower s).trans hs
  have hne : ¬ (nameWords line).isEmpty = true := fun hempty => hname (List.isEmpty_iff.mp hempty)
  rw [nameWords, Text.lower_append, Text.lower_cons, Text.words_append_cons hs', List.map_append,
    List.dropWhile_append, ← nameWords, if_neg hne]

theorem mnemonicOfWords_append {first : String} {rest : List String}
    (hfar : first = "call" ∨ first = "jmp" → rest ≠ []) (more : List String) :
    mnemonicOfWords (first :: rest ++ more) = mnemonicOfWords (first :: rest) := by
  cases rest with
  | nil =>
      have hnear : ¬ (first = "call" ∨ first = "jmp") := fun h => hfar h rfl
      rw [List.singleton_append, mnemonicOfWords, mnemonicOfWords, if_neg fun h => hnear h.1,
        if_neg fun h => hnear h.1]
  | cons second rest => rfl

/-! ### Canonical names -/

/-- Whether a text is in lower case and has no separators. -/
def isLowerWord (cs : List Char) : Bool := cs.all fun c => !separatesWords c && !c.isUpper

theorem isLowerWord_iff {cs : List Char} :
    isLowerWord cs = true ↔ ∀ c ∈ cs, separatesWords c = false ∧ c.isUpper = false := by
  simp [isLowerWord]

/-- Whether a name stands for no other: it is in lower case, has no separators, is not skipped and
is not listed as a synonym. -/
structure IsCanonical (name : String) : Prop where
  isLowerWord : isLowerWord name.toList = true
  notMem_modifierWords : name ∉ modifierWords
  notMem_synonyms : name ∉ synonyms.map Prod.fst

instance (name : String) : Decidable (IsCanonical name) :=
  decidable_of_iff
    (isLowerWord name.toList = true ∧ name ∉ modifierWords ∧ name ∉ synonyms.map Prod.fst)
    ⟨fun ⟨hlower, hmodifier, hsynonym⟩ => ⟨hlower, hmodifier, hsynonym⟩,
      fun ⟨hlower, hmodifier, hsynonym⟩ => ⟨hlower, hmodifier, hsynonym⟩⟩

theorem isCanonical_of_mem_synonyms : ∀ s ∈ synonyms, IsCanonical s.2 := by decide +kernel

theorem canonicalName_of_notMem {name : String} (h : name ∉ synonyms.map Prod.fst) :
    canonicalName name = name := by
  have hnone : synonyms.lookup name = none :=
    List.lookup_eq_none_iff.mpr fun s hs => bne_iff_ne.mpr fun heq =>
      h (heq ▸ List.mem_map_of_mem hs)
  rw [canonicalName, hnone, Option.getD_none]

theorem isCanonical_canonicalName {name : String} (hlower : isLowerWord name.toList = true)
    (hmodifier : name ∉ modifierWords) : IsCanonical (canonicalName name) := by
  by_cases hsynonym : name ∈ synonyms.map Prod.fst
  · cases hlookup : synonyms.lookup name with
    | none =>
        obtain ⟨s, hs, rfl⟩ := List.mem_map.mp hsynonym
        exact absurd rfl (bne_iff_ne.mp (List.lookup_eq_none_iff.mp hlookup s hs))
    | some canonical =>
        obtain ⟨before, behind, hlist, -⟩ := List.lookup_eq_some_iff.mp hlookup
        rw [canonicalName, hlookup, Option.getD_some]
        refine isCanonical_of_mem_synonyms (name, canonical) ?_
        rw [hlist]
        exact List.mem_append_cons_self
  · rw [canonicalName_of_notMem hsynonym]
    exact ⟨hlower, hmodifier, hsynonym⟩

theorem isLowerWord_of_mem_nameWords {line : List Char} {w : String} (h : w ∈ nameWords line) :
    isLowerWord w.toList = true := by
  obtain ⟨v, hv, rfl⟩ := List.mem_map.mp ((List.dropWhile_sublist _).subset h)
  rw [String.toList_ofList, isLowerWord_iff]
  have hword := Text.mem_words_iff.mp hv
  intro c hc
  obtain ⟨d, -, rfl⟩ := List.mem_map.mp (hword.subset hc)
  exact ⟨hword.separates_eq _ hc, d.isUpper_toLower_eq_false⟩

theorem isCanonical_expectedMnemonic (line : String) : IsCanonical (expectedMnemonic line) := by
  rw [expectedMnemonic_eq]
  cases hwords : nameWords line.toList with
  | nil => decide +kernel
  | cons first rest =>
      have hmem : first ∈ nameWords line.toList := hwords ▸ List.mem_cons_self
      have hfirst : first ∉ modifierWords := by
        have hhead := List.head?_dropWhile_not (· ∈ modifierWords)
          ((words separatesWords (lower line.toList)).map String.ofList)
        rw [← nameWords, hwords] at hhead
        exact of_decide_eq_false hhead
      rw [mnemonicOfWords]
      split
      · next hfar =>
          obtain ⟨rfl | rfl, -⟩ := hfar <;> decide +kernel
      · exact isCanonical_canonicalName (isLowerWord_of_mem_nameWords hmem) hfirst

theorem IsCanonical.expectedMnemonic_eq {name : String} (h : IsCanonical name) :
    expectedMnemonic name = name := by
  have hchars := isLowerWord_iff.mp h.isLowerWord
  have hlower : lower name.toList = name.toList := by
    refine (List.map_congr_left fun c hc => ?_).trans (List.map_id _)
    exact Char.toLower_eq_of_not_isUpper (Bool.eq_false_iff.mp (hchars c hc).2)
  by_cases hempty : name = ""
  · subst hempty
    rfl
  · have hne : name.toList ≠ [] := fun h => hempty (String.toList_inj.mp h)
    have hwords : nameWords name.toList = [name] := by
      rw [nameWords, hlower, Text.words_of_forall_not hne fun c hc => (hchars c hc).1,
        List.map_singleton, String.ofList_toList,
        List.dropWhile_cons_of_neg (by simpa using h.notMem_modifierWords)]
    have hnear : ¬ ((name = "call" ∨ name = "jmp") ∧ ([] : List String).head? = some "far") :=
      fun hfar => nomatch hfar.2
    rw [Corpus.expectedMnemonic_eq, hwords, mnemonicOfWords, if_neg hnear]
    exact canonicalName_of_notMem h.notMem_synonyms

/-- Reading a name off a line is a projection, onto names in lower case that hold no separators, are
not skipped and are no synonyms. What is read does not depend on the case of letters, nor on
separators and skipped words in front; nor on what follows behind a separator, once there is a name,
and behind a call or a jump the word that may make it a far one. -/
theorem expectedMnemonic_projection (line : String) :
    let name := expectedMnemonic line
    expectedMnemonic name = name
    ∧ (∀ other : String, lower other.toList = lower line.toList → expectedMnemonic other = name)
    ∧ (∀ lead : String, IsLead lead.toList → expectedMnemonic (lead ++ line) = name)
    ∧ (∀ c ∈ name.toList, separatesWords c = false ∧ c.isUpper = false)
    ∧ name ∉ modifierWords ∧ name ∉ synonyms.map Prod.fst
    ∧ ∀ (s : Char) (more : String), separatesWords s = true →
      (∃ first rest, nameWords line.toList = first :: rest
        ∧ (first = "call" ∨ first = "jmp" → rest ≠ [])) →
      expectedMnemonic (line ++ String.singleton s ++ more) = name := by
  intro name
  have hcanonical : IsCanonical name := isCanonical_expectedMnemonic line
  refine ⟨hcanonical.expectedMnemonic_eq, fun other hother => ?_, fun lead hlead => ?_,
    isLowerWord_iff.mp hcanonical.isLowerWord, hcanonical.notMem_modifierWords,
    hcanonical.notMem_synonyms, fun s more hs hname => ?_⟩
  · rw [expectedMnemonic_eq, nameWords, hother]
    rfl
  · rw [expectedMnemonic_eq, String.toList_append, hlead.nameWords_append]
    rfl
  · obtain ⟨first, rest, hwords, hfar⟩ := hname
    have hne : nameWords line.toList ≠ [] := hwords ▸ List.cons_ne_nil first rest
    have htext : (line ++ String.singleton s ++ more).toList = line.toList ++ s :: more.toList := by
      simp
    rw [expectedMnemonic_eq, htext, nameWords_append_cons hne hs, hwords,
      mnemonicOfWords_append hfar, ← hwords]
    rfl

/-- A far jump behind words that are skipped, and with more text behind it. -/
theorem expectedMnemonic_projection_jumpFar :
    let line := "JMP\tfar"
    let lead := ", Lock RepNZ,"
    lower "Jmp\tFAR".toList = lower line.toList ∧ IsLead lead.toList
    ∧ (∃ first rest, nameWords line.toList = first :: rest
      ∧ (first = "call" ∨ first = "jmp" → rest ≠ []))
    ∧ expectedMnemonic line = "jmpf" ∧ expectedMnemonic "jmpf" = "jmpf"
    ∧ expectedMnemonic "Jmp\tFAR" = "jmpf" ∧ expectedMnemonic (lead ++ line) = "jmpf"
    ∧ expectedMnemonic (line ++ String.singleton ',' ++ "lock") = "jmpf" := by
  intro line lead
  have hcase : lower "Jmp\tFAR".toList = lower line.toList := by decide +kernel
  have hlock : IsLead ([',', ' '] ++ (['L', 'o', 'c', 'k'] ++ [' '])) :=
    .modifier (.separators (List.all_eq_true.mp rfl)) (by decide +kernel) (List.cons_ne_nil _ _)
      (List.all_eq_true.mp rfl)
  have hrep : String.ofList (lower ['R', 'e', 'p', 'N', 'Z']) ∈ modifierWords := by decide +kernel
  have hlead : IsLead lead.toList := by
    have htext : lead.toList = [',', ' '] ++ (['L', 'o', 'c', 'k'] ++ [' '])
        ++ (['R', 'e', 'p', 'N', 'Z'] ++ [',']) := by
      decide +kernel
    rw [htext]
    exact hlock.modifier hrep (List.cons_ne_nil ',' []) (List.all_eq_true.mp rfl)
  have hwords : nameWords line.toList = ["jmp", "far"] := by decide +kernel
  have hname : ∃ first rest, nameWords line.toList = first :: rest
      ∧ (first = "call" ∨ first = "jmp" → rest ≠ []) :=
    ⟨"jmp", ["far"], hwords, fun _ => List.cons_ne_nil _ _⟩
  have hjump : expectedMnemonic line = "jmpf" := by decide +kernel
  obtain ⟨hsame, hother, hskips, -, -, -, hmore⟩ := expectedMnemonic_projection line
  rw [hjump] at hsame
  exact ⟨hcase, hlead, hname, hjump, hsame, (hother _ hcase).trans hjump,
    (hskips lead hlead).trans hjump, (hmore ',' "lock" rfl hname).trans hjump⟩

end Corpus

end Iapx86
