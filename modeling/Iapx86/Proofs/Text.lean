import Iapx86.Proofs.Reading
import Mathlib.Data.List.Nodup

/-!
# The text identifies the instruction

The text of an instruction begins with words that modify it, then comes the name of the operation,
and then what is written for the operands. The words and the name end at the first space, and no
name is one of the words (`header_inj`); the operands are separated by commas, which no operand has
in it (`operandsText_inj`); so each part can be told from the text. The name, and whether a distance
is written, tell the operation (`Operation.name_inj`), and the rest follows by reading the operands
back.
-/

namespace Iapx86

/-! ## Names -/

/-- The name of an operation; one on strings is named together with its width. -/
def Operation.name (operation : Operation) (onBytes : Bool) : String :=
  if operation.isString then operation.mnemonic ++ (if onBytes then "b" else "w")
  else operation.mnemonic

theorem Body.mnemonic_eq (b : Body) : b.mnemonic = b.operation.name b.isOnByteStrings := by
  unfold mnemonic Operation.name isOnByteStrings
  split
  · next hstring => simp [hstring]
  · rfl

namespace Operation

/-- The operations, with both widths of those on strings. -/
def named : List (Operation × Bool) :=
  (List.range 117).flatMap fun n =>
    if (ofNat n).isString then [(ofNat n, true), (ofNat n, false)] else [(ofNat n, false)]

theorem mem_named (b : Body) : (b.operation, b.isOnByteStrings) ∈ named := by
  have hlt : b.operation.ctorIdx < 117 := by
    cases b.operation <;> decide
  refine List.mem_flatMap.mpr ⟨_, List.mem_range.mpr hlt, ?_⟩
  rw [ofNat_ctorIdx, Body.isOnByteStrings]
  split
  · next hstring =>
      rw [hstring]
      cases decide (b.width = .byte) <;> simp
  · next hstring => simp [hstring]

/-- Two operations have one name only if one is a branch and the other is not. -/
theorem nodup_named :
    (named.map fun x => (x.1.isRelativeBranch, (x.1.name x.2).toList)).Nodup := by
  decide +kernel

theorem name_inj {b b' : Body} (hname : b.mnemonic = b'.mnemonic)
    (hbranch : b.operation.isRelativeBranch = b'.operation.isRelativeBranch) :
    b.operation = b'.operation ∧ b.isOnByteStrings = b'.isOnByteStrings := by
  rw [b.mnemonic_eq, b'.mnemonic_eq] at hname
  have hpair := List.inj_on_of_nodup_map nodup_named (mem_named b) (mem_named b')
    (Prod.ext hbranch (congrArg String.toList hname))
  exact Prod.mk.inj hpair

end Operation

/-! ## The words before the operands -/

/-- The words that stand before the name of an operation. -/
def modifierWords : List String := ["lock", "rep", "repe", "repne"]

theorem space_notMem_modifierWords : ∀ w ∈ modifierWords, ' ' ∉ w.toList := by
  decide +kernel

theorem name_properties : ∀ x ∈ Operation.named,
    ' ' ∉ (x.1.name x.2).toList ∧ x.1.name x.2 ∉ modifierWords ∧
      (x.1.name x.2 = "(bad)" → x.1 = .undefined) := by
  decide +kernel

section

variable {ws ws' : List String} {name name' : String} {r r' : List Char}

/-- The words before the operands can be told from the rest. -/
theorem header_inj (hws : ∀ w ∈ ws, w ∈ modifierWords) (hws' : ∀ w ∈ ws', w ∈ modifierWords)
    (hname : ' ' ∉ name.toList) (hname' : ' ' ∉ name'.toList) (hnot : name ∉ modifierWords)
    (hnot' : name' ∉ modifierWords) (hr : IsCut ' ' r) (hr' : IsCut ' ' r')
    (h : ws.flatMap (·.toList ++ [' ']) ++ (name.toList ++ r) =
      ws'.flatMap (·.toList ++ [' ']) ++ (name'.toList ++ r')) :
    ws = ws' ∧ name = name' ∧ r = r' := by
  induction ws generalizing ws' with
  | nil =>
      cases ws' with
      | nil =>
          obtain ⟨hfirst, hrest⟩ := append_inj_of_isCut hname hname' hr hr' h
          exact ⟨rfl, String.toList_inj.mp hfirst, hrest⟩
      | cons w' ws' =>
          have hw' := hws' w' List.mem_cons_self
          rw [List.flatMap_cons, List.append_assoc, List.append_assoc] at h
          obtain ⟨hfirst, -⟩ := append_inj_of_isCut hname (space_notMem_modifierWords w' hw') hr
            (isCut_cons ' ' _) h
          exact absurd (String.toList_inj.mp hfirst ▸ hw') hnot
  | cons w ws ih =>
      have hw := hws w List.mem_cons_self
      rw [List.flatMap_cons, List.append_assoc, List.append_assoc] at h
      cases ws' with
      | nil =>
          obtain ⟨hfirst, -⟩ := append_inj_of_isCut (space_notMem_modifierWords w hw) hname'
            (isCut_cons ' ' _) hr' h
          exact absurd (String.toList_inj.mp hfirst ▸ hw) hnot'
      | cons w' ws' =>
          have hw' := hws' w' List.mem_cons_self
          rw [List.flatMap_cons, List.append_assoc, List.append_assoc] at h
          obtain ⟨hfirst, hrest⟩ := append_inj_of_isCut (space_notMem_modifierWords w hw)
            (space_notMem_modifierWords w' hw') (isCut_cons ' ' _) (isCut_cons ' ' _) h
          obtain ⟨htail, hrest⟩ := ih (fun v hv => hws v (List.mem_cons_of_mem _ hv))
            (fun v hv => hws' v (List.mem_cons_of_mem _ hv)) (List.tail_eq_of_cons_eq hrest)
          exact ⟨by rw [String.toList_inj.mp hfirst, htail], hrest⟩

end

/-! ## The operands -/

/-- What comes after the name. -/
def operandsText : List String → String
  | [] => ""
  | texts => " " ++ ", ".intercalate texts

theorem isCut_operandsText (texts : List String) : IsCut ' ' (operandsText texts).toList := by
  cases texts with
  | nil => exact isCut_nil ' '
  | cons t ts =>
      rw [operandsText, String.toList_append]
      · exact isCut_cons ' ' _
      · exact List.cons_ne_nil t ts

theorem intercalate_cons (t : List Char) (ts : List (List Char)) :
    [',', ' '].intercalate (t :: ts) =
      t ++ if ts = [] then [] else ',' :: ' ' :: [',', ' '].intercalate ts := by
  cases ts with
  | nil => simp
  | cons u us => simp [List.intercalate_cons_cons]

/-- Operands that are separated by commas, and have none in them, can be told apart. -/
theorem intercalate_inj {ts ts' : List (List Char)} (ht : ∀ t ∈ ts, ',' ∉ t)
    (ht' : ∀ t ∈ ts', ',' ∉ t) (hne : ts ≠ []) (hne' : ts' ≠ [])
    (h : [',', ' '].intercalate ts = [',', ' '].intercalate ts') : ts = ts' := by
  have hcut (us : List (List Char)) :
      IsCut ',' (if us = [] then [] else ',' :: ' ' :: [',', ' '].intercalate us) := by
    split
    · exact isCut_nil ','
    · exact isCut_cons ',' _
  induction ts generalizing ts' with
  | nil => exact absurd rfl hne
  | cons t ts ih =>
      obtain ⟨t', ts', rfl⟩ := List.exists_cons_of_ne_nil hne'
      rw [intercalate_cons, intercalate_cons] at h
      obtain ⟨hfirst, hrest⟩ := append_inj_of_isCut (ht t List.mem_cons_self)
        (ht' t' List.mem_cons_self) (hcut ts) (hcut ts') h
      have htail : ts = ts' := by
        split at hrest <;> split at hrest
        · next h h' => rw [h, h']
        · cases hrest
        · cases hrest
        · next h h' =>
            exact ih (fun u hu => ht u (List.mem_cons_of_mem _ hu))
              (fun u hu => ht' u (List.mem_cons_of_mem _ hu)) h h'
              (List.tail_eq_of_cons_eq (List.tail_eq_of_cons_eq hrest))
      rw [hfirst, htail]

theorem toList_operandsText {texts : List String} (h : texts ≠ []) :
    (operandsText texts).toList = ' ' :: [',', ' '].intercalate (texts.map String.toList) := by
  obtain ⟨t, ts, rfl⟩ := List.exists_cons_of_ne_nil h
  rw [operandsText, String.toList_append, String.toList_intercalate]
  · rfl
  · exact h

theorem operandsText_inj {texts texts' : List String} (ht : ∀ t ∈ texts, ',' ∉ t.toList)
    (ht' : ∀ t ∈ texts', ',' ∉ t.toList) (h : operandsText texts = operandsText texts') :
    texts = texts' := by
  have hmap {texts : List String} (ht : ∀ t ∈ texts, ',' ∉ t.toList) :
      ∀ t ∈ texts.map String.toList, ',' ∉ t := by
    simpa using ht
  have hempty : operandsText [] = "" := rfl
  rw [← String.toList_inj] at h
  by_cases hne : texts = []
  · by_cases hne' : texts' = []
    · rw [hne, hne']
    · rw [hne, hempty, toList_operandsText hne'] at h
      cases h
  · by_cases hne' : texts' = []
    · rw [hne', hempty, toList_operandsText hne] at h
      cases h
    · rw [toList_operandsText hne, toList_operandsText hne'] at h
      have hlists := intercalate_inj (hmap ht) (hmap ht') (by simpa using hne)
        (by simpa using hne') (List.tail_eq_of_cons_eq h)
      exact List.map_injective_iff.mpr (fun _ _ => String.toList_inj.mp) hlists

theorem comma_notMem_text {t : WrittenOperand} (ht : t.IsLegible) : ',' ∉ t.text.toList := by
  have hnames : ∀ t ∈ WrittenOperand.names, ',' ∉ t.text.toList := by decide +kernel
  cases t with
  | number n => exact notMem_hexadecimal rfl _
  | distance d => exact notMem_signedHexadecimal rfl (by decide) _
  | pointer s offset =>
      simp [WrittenOperand.text, String.toList_append, notMem_hexadecimal]
  | register r width => exact hnames _ (WrittenOperand.mem_names ht rfl)
  | segment s => exact hnames _ (WrittenOperand.mem_names ht rfl)
  | memory width s address =>
      have hkeyword : ',' ∉ width.keyword.toList := by
        cases width <;> decide
      have hoverride : ',' ∉ (overrideText s).toList := by
        cases s with
        | none => decide
        | some s => cases s <;> decide +kernel
      have haddress := address.notMem_text ht (show ','.isAlphanum = false from rfl) (by decide)
      simp [WrittenOperand.text, String.toList_append, hkeyword, hoverride, haddress]

theorem map_text_inj {ts ts' : List WrittenOperand} (ht : ∀ t ∈ ts, t.IsLegible)
    (ht' : ∀ t ∈ ts', t.IsLegible)
    (h : ts.map WrittenOperand.text = ts'.map WrittenOperand.text) : ts = ts' := by
  induction ts generalizing ts' with
  | nil => exact (List.map_eq_nil_iff.mp h.symm).symm
  | cons t ts ih =>
      cases ts' with
      | nil => cases h
      | cons t' ts' =>
          obtain ⟨hfirst, hrest⟩ := List.cons.inj h
          rw [WrittenOperand.text_inj (ht t List.mem_cons_self) (ht' t' List.mem_cons_self) hfirst,
            ih (fun u hu => ht u (List.mem_cons_of_mem _ hu))
              (fun u hu => ht' u (List.mem_cons_of_mem _ hu)) hrest]

/-! ## The text -/

namespace Instruction

def repetitionWord (operation : Operation) : Repetition → String
  | .whileEqual => if operation = .cmps ∨ operation = .scas then "repe" else "rep"
  | .whileNotEqual => "repne"

/-- The words before the name. -/
def modifiers (i : Instruction) : List String :=
  (if i.lock then ["lock"] else []) ++ (i.repetition.map (repetitionWord i.operation)).toList

theorem repetitionWord_mem (operation : Operation) (r : Repetition) :
    repetitionWord operation r ∈ ["rep", "repe", "repne"] := by
  cases r with
  | whileEqual =>
      rw [repetitionWord]
      split <;> decide
  | whileNotEqual =>
      rw [repetitionWord]
      decide

theorem repetitionWord_inj {operation operation' : Operation} {r r' : Repetition}
    (h : repetitionWord operation r = repetitionWord operation' r') : r = r' := by
  have hne (operation : Operation) : repetitionWord operation .whileEqual ≠ "repne" := by
    rw [repetitionWord]
    split <;> decide
  cases r <;> cases r'
  · rfl
  · exact absurd h (hne operation)
  · exact absurd h.symm (hne operation')
  · rfl

theorem modifiers_subset (i : Instruction) : ∀ w ∈ i.modifiers, w ∈ modifierWords := by
  intro w hw
  rcases List.mem_append.mp hw with hlock | hrepetition
  · split at hlock
    · rw [List.mem_singleton.mp hlock]
      decide
    · cases hlock
  · obtain ⟨r, -, rfl⟩ := Option.map_eq_some_iff.mp (Option.mem_toList.mp hrepetition)
    exact List.mem_cons_of_mem _ (repetitionWord_mem i.operation r)

theorem modifiers_inj {i i' : Instruction} (h : i.modifiers = i'.modifiers) :
    i.lock = i'.lock ∧ i.repetition = i'.repetition := by
  have hne (operation : Operation) (r : Repetition) : repetitionWord operation r ≠ "lock" := by
    intro heq
    have hmem := repetitionWord_mem operation r
    rw [heq] at hmem
    exact absurd hmem (by decide)
  have hlock (i : Instruction) : "lock" ∈ i.modifiers ↔ i.lock = true := by
    unfold modifiers
    cases i.lock <;> cases i.repetition <;> simp [Ne.symm (hne _ _)]
  have hl : i.lock = i'.lock := by
    rw [Bool.eq_iff_iff, ← hlock, ← hlock, h]
  unfold modifiers at h
  rw [hl] at h
  have hwords := List.append_cancel_left h
  cases hr : i.repetition with
  | none =>
      cases hr' : i'.repetition with
      | none => exact ⟨hl, rfl⟩
      | some r' =>
          rw [hr, hr'] at hwords
          cases hwords
  | some r =>
      cases hr' : i'.repetition with
      | none =>
          rw [hr, hr'] at hwords
          cases hwords
      | some r' =>
          rw [hr, hr'] at hwords
          rw [repetitionWord_inj (List.cons.inj hwords).1]
          exact ⟨hl, rfl⟩

theorem toList_text {i : Instruction} (hdefined : i.isUndefined = false) :
    i.text.toList =
      i.modifiers.flatMap (·.toList ++ [' ']) ++
        (i.mnemonic.toList ++ (operandsText i.operandTexts).toList) := by
  have hrepetition (r : Repetition) :
      repetitionText i.operation r = repetitionWord i.operation r ++ " " := by
    cases r with
    | whileEqual =>
        rw [repetitionText, repetitionWord]
        split <;> rfl
    | whileNotEqual => rfl
  have htext : i.text =
      (if i.lock then "lock " else "") ++ i.repetition.elim "" (repetitionText i.operation) ++
        i.mnemonic ++ operandsText i.operandTexts := by
    rw [text, if_neg (Bool.eq_false_iff.mp hdefined)]
    cases i.repetition <;> rfl
  rw [htext, modifiers]
  cases i.lock <;> cases i.repetition <;> simp [hrepetition, String.toList_append]

/-- Only what encodes no instruction is written as such. -/
theorem text_eq_bad_iff (i : Instruction) : i.text = "(bad)" ↔ i.isUndefined = true := by
  constructor
  · intro h
    rw [← Bool.not_eq_false]
    intro hdefined
    obtain ⟨hspace, hnot, hbad⟩ := name_properties _ (Operation.mem_named i.toBody)
    rw [← i.mnemonic_eq] at hspace hnot hbad
    have hheader := (toList_text hdefined).symm.trans (congrArg String.toList h)
    have hbare : "(bad)".toList = ([] : List String).flatMap (·.toList ++ [' ']) ++
        ("(bad)".toList ++ []) := (List.append_nil _).symm
    rw [hbare] at hheader
    obtain ⟨-, hname, -⟩ := header_inj i.modifiers_subset (List.forall_mem_nil _) hspace (by decide)
      hnot (by decide) (isCut_operandsText _) (isCut_nil ' ') hheader
    exact of_decide_eq_false hdefined (hbad hname)
  · intro h
    rw [text, if_pos h]

theorem text_congr {i i' : Instruction} (hbody : i.toBody = i'.toBody)
    (hrepetition : i.repetition = i'.repetition) (hlock : i.lock = i'.lock)
    (hsegment : (∃ o ∈ i.operands, o.isMemory) → i.segmentOverride = i'.segmentOverride) :
    i.text = i'.text := by
  have hoperands : i.operandTexts = i'.operandTexts := by
    rw [operandTexts_eq, operandTexts_eq, writtenOperands_congr hbody hsegment]
  have hmodifiers : i.modifiers = i'.modifiers := by
    rw [modifiers, modifiers, hlock, hrepetition, hbody]
  have hundefined : i.isUndefined = i'.isUndefined := by
    rw [isUndefined, isUndefined, hbody]
  cases hdefined : i.isUndefined with
  | true => rw [(text_eq_bad_iff i).mpr hdefined, (text_eq_bad_iff i').mpr (hundefined ▸ hdefined)]
  | false =>
      rw [← String.toList_inj, toList_text hdefined, toList_text (hundefined ▸ hdefined),
        hmodifiers, hoperands, hbody]

theorem eq_of_text_eq {i i' : Instruction} (hdefined : i.isUndefined = false)
    (hdefined' : i'.isUndefined = false) (hwell : i.toBody.WellFormed)
    (hwell' : i'.toBody.WellFormed) (hreadable : i.toBody.IsReadable)
    (hreadable' : i'.toBody.IsReadable) (hshift : i.operation.isShift = false)
    (hshift' : i'.operation.isShift = false) (h : i.text = i'.text) :
    i.toBody = i'.toBody ∧ i.repetition = i'.repetition ∧ i.lock = i'.lock ∧
      ((∃ o ∈ i.operands, o.isMemory) → i.segmentOverride = i'.segmentOverride) := by
  obtain ⟨hspace, hnot, -⟩ := name_properties _ (Operation.mem_named i.toBody)
  obtain ⟨hspace', hnot', -⟩ := name_properties _ (Operation.mem_named i'.toBody)
  rw [← i.mnemonic_eq] at hspace hnot
  rw [← i'.mnemonic_eq] at hspace' hnot'
  rw [← String.toList_inj, toList_text hdefined, toList_text hdefined'] at h
  obtain ⟨hmodifiers, hname, hrest⟩ :=
    header_inj i.modifiers_subset i'.modifiers_subset hspace hspace' hnot hnot'
      (isCut_operandsText _) (isCut_operandsText _) h
  have hlegible := fun t => isLegible_of_mem_writtenOperands hwell hreadable (t := t)
  have hlegible' := fun t => isLegible_of_mem_writtenOperands hwell' hreadable' (t := t)
  have hcomma {ts : List WrittenOperand} (hlegible : ∀ t ∈ ts, t.IsLegible) :
      ∀ t ∈ ts.map WrittenOperand.text, ',' ∉ t.toList := by
    intro t ht
    obtain ⟨u, hu, rfl⟩ := List.mem_map.mp ht
    exact comma_notMem_text (hlegible u hu)
  rw [operandTexts_eq, operandTexts_eq, String.toList_inj] at hrest
  have hoperands := map_text_inj hlegible hlegible'
    (operandsText_inj (hcomma hlegible) (hcomma hlegible') hrest)
  -- The name leaves it open whether a call or jump is relative, but the distance shows it.
  have hbranch : i.operation.isRelativeBranch = i'.operation.isRelativeBranch := by
    rw [Bool.eq_iff_iff, isRelativeBranch_iff hwell, isRelativeBranch_iff hwell', hoperands]
  obtain ⟨hoperation, hwidth⟩ := Operation.name_inj hname hbranch
  have hbody : i.toBody = i'.toBody := by
    rw [← read_writtenOperands hwell hreadable hshift, hoperation, hwidth, hoperands,
      read_writtenOperands hwell' hreadable' hshift']
  obtain ⟨hlock, hrepetition⟩ := modifiers_inj hmodifiers
  refine ⟨hbody, hrepetition, hlock, fun hmemory => ?_⟩
  have hmemory' : ∃ o ∈ i'.operands, o.isMemory := hbody ▸ hmemory
  rw [← segmentOverride_eq hwell hreadable hmemory, hoperands,
    segmentOverride_eq hwell' hreadable' hmemory']

end Instruction

/-- The text is that of no instruction only if there is none. Two instructions that do not shift or
rotate have the same text just in case they are the same in all but the width of addresses and a
segment that no operand in memory is addressed with. -/
theorem text_eq_text_iff (model model' : Model) (bytes bytes' : List UInt8) (length length' : Nat)
    (i i' : Instruction) (h : decodeOne model bytes = .complete length i)
    (h' : decodeOne model' bytes' = .complete length' i') :
    (i.text = "(bad)" ↔ i.isUndefined = true) ∧
    (i.isUndefined = false → i'.isUndefined = false → i.operation.isShift = false →
      i'.operation.isShift = false →
      (i.text = i'.text ↔
        i.toBody = i'.toBody ∧ i.repetition = i'.repetition ∧ i.lock = i'.lock ∧
          ((∃ o ∈ i.operands, o.isMemory) → i.segmentOverride = i'.segmentOverride))) := by
  refine ⟨i.text_eq_bad_iff, fun hdefined hdefined' hshift hshift' => ⟨fun htext => ?_, ?_⟩⟩
  · have hwell := (Decoder.new model).wellFormed_of_decode_complete trivial h hdefined
    have hwell' := (Decoder.new model').wellFormed_of_decode_complete trivial h' hdefined'
    have hreadable := isReadable_of_decodeOne h hdefined
    have hreadable' := isReadable_of_decodeOne h' hdefined'
    exact Instruction.eq_of_text_eq hdefined hdefined' hwell hwell' hreadable hreadable' hshift
      hshift' htext
  · rintro ⟨hbody, hrepetition, hlock, hsegment⟩
    exact Instruction.text_congr hbody hrepetition hlock hsegment

/-- An addition from a register to another, in both directions; the segment before one of the two
addresses nothing. -/
theorem text_eq_text_iff_add :
    let i : Instruction :=
      { operation := .add, source := some (.register .ax), destination := some (.register .bx),
        width := .word, lock := true }
    let i' : Instruction := { i with segmentOverride := some .fs }
    decodeOne .i8086 [0xF0, 0x01, 0xC3] = .complete 3 i ∧
      decodeOne .i80386 [0x64, 0xF0, 0x03, 0xD8] = .complete 4 i' ∧
      i.text = "lock add bx, ax" ∧ i.text = i'.text ∧ i.toBody = i'.toBody ∧ i.text ≠ "(bad)" := by
  intro i i'
  have h : decodeOne .i8086 [0xF0, 0x01, 0xC3] = .complete 3 i := by decide +kernel
  have h' : decodeOne .i80386 [0x64, 0xF0, 0x03, 0xD8] = .complete 4 i' := by decide +kernel
  have hi : i.text = "lock add bx, ax" := by decide +kernel
  have hi' : i'.text = "lock add bx, ax" := by decide +kernel
  obtain ⟨hbad, hiff⟩ := text_eq_text_iff _ _ _ _ _ _ i i' h h'
  obtain ⟨hbody, -⟩ := (hiff rfl rfl rfl rfl).mp (hi.trans hi'.symm)
  exact ⟨h, h', hi, hi.trans hi'.symm, hbody, fun htext => Bool.false_ne_true (hbad.mp htext)⟩

end Iapx86
