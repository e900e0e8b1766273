import Iapx86.Corpus.Case
import Iapx86.Proofs.Text
import Iapx86.Proofs.Words

/-!
# The library's own text as a case

The name of an operation can be read off the text of an instruction in the way in which it is read
off other assemblers' lines (`expectedMnemonic_eq_of_lower_eq`), whatever letters are in upper case:
the words before the name are ones that are skipped, the name is no synonym of another, and no
operand can be taken for the word that makes a call or jump a far one. So an encoding passes as a
case of its own text.
-/

namespace Iapx86

namespace Corpus

open Text (lower words)

/-! ## The words before the operands -/

/-- Whether a text is one word. -/
def isWord (cs : List Char) : Bool := !cs.isEmpty && cs.all fun c => !separatesWords c

theorem isWord_iff {cs : List Char} :
    isWord cs ↔ cs ≠ [] ∧ ∀ c ∈ cs, separatesWords c = false := by
  simp [isWord]

theorem modifierWords_properties : ∀ w ∈ Iapx86.modifierWords,
    w ∈ modifierWords ∧ lower w.toList = w.toList ∧ isWord w.toList := by
  decide +kernel

theorem mnemonic_properties : ∀ x ∈ Operation.named,
    x.1.name x.2 ∉ modifierWords ∧ synonyms.lookup (x.1.name x.2) = none ∧
      lower (x.1.name x.2).toList = (x.1.name x.2).toList ∧ isWord (x.1.name x.2).toList := by
  decide +kernel

/-! ## The first operand -/

/-- Whether a text in lower case begins as operands do: with a character that separates no words,
and not as `far` does. -/
def beginsOperand : List Char → Bool
  | c :: d :: _ => !separatesWords c && [c, d] ≠ ['f', 'a']
  | _ => false

theorem beginsOperand_append {cs : List Char} (h : beginsOperand cs = true) (ds : List Char) :
    beginsOperand (cs ++ ds) = true := by
  match cs with
  | c :: d :: cs => exact h
  | [] | [c] => cases h

theorem beginsOperand_hexadecimal (n : Nat) :
    beginsOperand (lower (Numeral.hexadecimal n).toList) = true := by
  rw [Numeral.toList_hexadecimal]
  rfl

theorem beginsOperand_bracket {cs : List Char} (h : cs ≠ []) :
    beginsOperand (lower ('[' :: cs)) = true := by
  obtain ⟨c, cs, rfl⟩ := List.exists_cons_of_ne_nil h
  have hne : ['[', c.toLower] ≠ ['f', 'a'] := by simp
  simp only [lower, List.map_cons, beginsOperand, Bool.and_eq_true, decide_eq_true_eq]
  exact ⟨rfl, hne⟩

theorem beginsOperand_text (t : WrittenOperand) :
    beginsOperand (lower t.text.toList) = true := by
  cases t with
  | number n => exact beginsOperand_hexadecimal _
  | distance d =>
      rw [WrittenOperand.text, Numeral.toList_signedHexadecimal, Numeral.toList_hexadecimal]
      split <;> rfl
  | pointer s offset =>
      rw [WrittenOperand.text, String.toList_append, String.toList_append, List.append_assoc,
        Text.lower_append]
      exact beginsOperand_append (beginsOperand_hexadecimal _) _
  | register r width => cases r <;> cases width <;> decide +kernel
  | segment s => cases s <;> decide +kernel
  | memory width s address =>
      have hlist : (WrittenOperand.memory width s address).text.toList =
          width.keyword.toList ++
            '[' :: ((overrideText s).toList ++ (address.text.toList ++ [']'])) := by
        simp [WrittenOperand.text, String.toList_append]
      have hne : (overrideText s).toList ++ (address.text.toList ++ [']']) ≠ [] := by simp
      rw [hlist]
      cases width with
      | implied => exact beginsOperand_bracket hne
      | byte | word | dword =>
          rw [Text.lower_append]
          exact beginsOperand_append (by decide +kernel) _

theorem head?_words_of_beginsOperand {cs : List Char} (h : beginsOperand cs = true) :
    (words separatesWords cs).head? ≠ some ['f', 'a', 'r'] := by
  match cs with
  | [] | [c] => cases h
  | c :: d :: cs =>
      obtain ⟨hc, hne⟩ := Bool.and_eq_true_iff.mp h
      rw [Bool.not_eq_true'] at hc
      intro hfar
      rw [Text.head?_words_cons hc, List.takeWhile_cons, Option.some_inj, List.cons.injEq] at hfar
      obtain ⟨rfl, hrest⟩ := hfar
      split at hrest
      · obtain ⟨rfl, -⟩ := List.cons.inj hrest
        exact absurd rfl (of_decide_eq_true hne)
      · cases hrest

/-- The first word of the operands does not make a call or jump a far one. -/
theorem head?_words_operandsText (i : Instruction) :
    (words separatesWords (lower (operandsText i.operandTexts).toList)).head? ≠
      some ['f', 'a', 'r'] := by
  rw [i.operandTexts_eq]
  cases i.writtenOperands with
  | nil => exact nofun
  | cons t ts =>
      have hne : (t :: ts).map WrittenOperand.text ≠ [] := List.cons_ne_nil _ _
      rw [toList_operandsText hne, List.map_cons, List.map_cons, intercalate_cons, Text.lower_cons,
        Text.words_cons_of_separates (by decide), Text.lower_append]
      exact head?_words_of_beginsOperand (beginsOperand_append (beginsOperand_text t) _)

/-! ## The name -/

theorem lower_text {i : Instruction} (hdefined : i.isUndefined = false) :
    lower i.text.toList =
      (i.modifiers.map String.toList).flatMap (· ++ [' ']) ++
        (i.mnemonic.toList ++ lower (operandsText i.operandTexts).toList) := by
  have hmodifiers : lower (i.modifiers.flatMap (·.toList ++ [' '])) =
      (i.modifiers.map String.toList).flatMap (· ++ [' ']) := by
    rw [lower, List.map_flatMap, List.flatMap_map]
    refine List.flatMap_congr fun w hw => ?_
    have hlower := (modifierWords_properties w (i.modifiers_subset w hw)).2.1
    rw [List.map_append, ← lower, hlower]
    rfl
  obtain ⟨-, -, hname, -⟩ := mnemonic_properties _ (Operation.mem_named i.toBody)
  rw [← i.mnemonic_eq] at hname
  rw [Instruction.toList_text hdefined, Text.lower_append, Text.lower_append, hmodifiers, hname]

theorem map_words_lower_text {i : Instruction} (hdefined : i.isUndefined = false) :
    (words separatesWords (lower i.text.toList)).map String.ofList =
      i.modifiers ++ i.mnemonic ::
        (words separatesWords (lower (operandsText i.operandTexts).toList)).map String.ofList := by
  have hmodifiers : ∀ w ∈ i.modifiers.map String.toList,
      w ≠ [] ∧ ∀ c ∈ w, separatesWords c = false := by
    intro w hw
    obtain ⟨v, hv, rfl⟩ := List.mem_map.mp hw
    exact isWord_iff.mp (modifierWords_properties v (i.modifiers_subset v hv)).2.2
  have hcut : ∀ c ∈ (lower (operandsText i.operandTexts).toList).head?,
      separatesWords c = true := by
    intro c hc
    rw [lower, List.head?_map] at hc
    obtain ⟨space, hspace, rfl⟩ := Option.map_eq_some_iff.mp hc
    rw [isCut_operandsText _ space hspace]
    decide
  obtain ⟨-, -, -, hword⟩ := mnemonic_properties _ (Operation.mem_named i.toBody)
  rw [← i.mnemonic_eq] at hword
  obtain ⟨hne, hname⟩ := isWord_iff.mp hword
  rw [lower_text hdefined, Text.words_flatMap_append (by decide) hmodifiers,
    Text.words_append_of_head? hne hname hcut, List.map_append, List.map_map, List.map_cons,
    String.ofList_toList]
  simp [Function.comp_def]

/-- The name of the operation is found in the text of an instruction, whatever letters are in upper
case. -/
theorem expectedMnemonic_eq_of_lower_eq {i : Instruction} (hdefined : i.isUndefined = false)
    {line : String} (hline : lower line.toList = lower i.text.toList) :
    expectedMnemonic line = i.mnemonic := by
  have hmodifiers : ∀ w ∈ i.modifiers, decide (w ∈ modifierWords) = true := by
    intro w hw
    exact decide_eq_true (modifierWords_properties w (i.modifiers_subset w hw)).1
  obtain ⟨hmodifier, hsynonym, -⟩ := mnemonic_properties _ (Operation.mem_named i.toBody)
  rw [← i.mnemonic_eq] at hmodifier hsynonym
  have hfar : ((words separatesWords (lower (operandsText i.operandTexts).toList)).map
      String.ofList).head? ≠ some "far" := by
    intro h
    rw [List.head?_map] at h
    obtain ⟨w, hw, hword⟩ := Option.map_eq_some_iff.mp h
    rw [← String.toList_inj, String.toList_ofList] at hword
    exact head?_words_operandsText i (hw.trans (congrArg some hword))
  rw [expectedMnemonic, hline, map_words_lower_text hdefined,
    List.dropWhile_append_of_pos hmodifiers, List.dropWhile_cons_of_neg (by simpa using hmodifier),
    mnemonicOfWords, if_neg fun h => hfar h.2, canonicalName, hsynonym, Option.getD_none]

/-! ## The case -/

theorem nameFits_mnemonic (i : Instruction) : Case.nameFits i.mnemonic i = true := by
  unfold Case.nameFits
  split
  · next hesc =>
      have hname : i.mnemonic = "esc" := by
        rw [Body.mnemonic, hesc]
        rfl
      rw [hname]
      rfl
  · exact decide_eq_true rfl

/-- An encoding passes as a case of the text of its instruction, whatever letters of the text are in
upper case, and the name that is read off the text is that of the operation. -/
theorem Case.check_text {model : Model} {bytes : List UInt8} {i : Instruction}
    (hdecode : decodeOne model bytes = .complete bytes.length i)
    (hdefined : i.isUndefined = false) {name : String}
    (hname : lower name.toList = lower i.text.toList) :
    Case.check model { name, bytes } = .ok () ∧ expectedMnemonic name = i.mnemonic := by
  have hexpected := expectedMnemonic_eq_of_lower_eq hdefined hname
  refine ⟨?_, hexpected⟩
  rw [check, hdecode]
  dsimp only
  rw [hdefined, hexpected, nameFits_mnemonic]
  simp

/-- A locked addition passes as a case of its text, with some letters in upper case. -/
theorem Case.check_text_lockAdd :
    let bytes : List UInt8 := [0xF0, 0x26, 0x01, 0x07]
    let i : Instruction :=
      { lock := true, segmentOverride := some .es, operation := .add,
        source := some (.register .ax), destination := some .indirect, width := .word,
        sib := { index := some .bx } }
    decodeOne .i8086 bytes = .complete bytes.length i ∧ i.isUndefined = false ∧
      lower "LOCK Add word [es:BX], ax".toList = lower i.text.toList ∧
      Case.check .i8086 { name := "LOCK Add word [es:BX], ax", bytes } = .ok () ∧
      expectedMnemonic "LOCK Add word [es:BX], ax" = i.mnemonic := by
  intro bytes i
  have hdecode : decodeOne .i8086 bytes = .complete bytes.length i := by decide +kernel
  have hname : lower "LOCK Add word [es:BX], ax".toList = lower i.text.toList := by decide +kernel
  exact ⟨hdecode, rfl, hname, Case.check_text hdecode rfl hname⟩

end Corpus

end Iapx86
