import Iapx86.Corpus.Stem
import Iapx86.Proofs.Errors
import Iapx86.Proofs.Numerals
import Iapx86.Proofs.Words
import Mathlib.Data.List.TakeWhile

/-!
# Which names are read as stems

A corpus file is meant to be named by one or two bytes of two hexadecimal digits each and, behind a
point, by one digit below eight (`Stem.IsDocumented`). What is read are numerals where these digits
stand, and a numeral may have a sign or zeros in front (`Stem.IsAccepted`): a byte may be a plus
sign and one digit, and the member of a group any numeral below eight (`Stem.ofText?_eq_some_iff`).
So the names that are read and not meant are those with a sign, or with more than one character
behind the point.
-/

namespace Iapx86

namespace Corpus

open Numeral (Denotes digitValue?)

/-! ## Names as they are meant, and as they are read -/

/-- A text is a numeral: digits, behind a plus sign or not. -/
def IsNumeral (base : Nat) (cs : List Char) (n : Nat) : Prop :=
  Denotes base cs n ∨ ∃ ds, cs = '+' :: ds ∧ Denotes base ds n

namespace Stem

/-- One or two bytes, for each of which two characters stand. -/
inductive SpellsOpcode (spells : List Char → Nat → Prop) : List Char → List UInt8 → Prop
  | one {a b : Char} {x : UInt8} (first : spells [a, b] x.toNat) : SpellsOpcode spells [a, b] [x]
  | two {a b c d : Char} {x y : UInt8} (first : spells [a, b] x.toNat)
      (second : spells [c, d] y.toNat) : SpellsOpcode spells [a, b, c, d] [x, y]

/-- An opcode, and possibly a member of its group behind a point, for which such characters
stand. -/
inductive IsNamed (byte member : List Char → Nat → Prop) : List Char → Stem → Prop
  | opcode {cs : List Char} {opcode : List UInt8} (hopcode : SpellsOpcode byte cs opcode) :
      IsNamed byte member cs { opcode }
  | member {cs ds : List Char} {opcode : List UInt8} {k : Nat}
      (hopcode : SpellsOpcode byte cs opcode) (hmember : member ds k) (hk : k < 8) :
      IsNamed byte member (cs ++ '.' :: ds) { opcode, subOpcode := some k }

/-- The name is made of hexadecimal digits, two for each byte, and of one decimal digit. -/
def IsDocumented : List Char → Stem → Prop :=
  IsNamed (Denotes 16) fun ds k => ds.length = 1 ∧ Denotes 10 ds k

/-- The name is made of numerals. -/
def IsAccepted : List Char → Stem → Prop := IsNamed (IsNumeral 16) (IsNumeral 10)

/-- No sign, and no more than one character from behind the point. -/
def IsPlain (cs : List Char) : Prop := '+' ∉ cs ∧ (cs.dropWhile (· ≠ '.')).length ≤ 2

instance (cs : List Char) : Decidable (IsPlain cs) := inferInstanceAs (Decidable (_ ∧ _))

/-- The name in lower case. -/
def name (stem : Stem) : List Char :=
  stem.opcode.flatMap Numeral.byteDigits ++
    match stem.subOpcode with
    | none => []
    | some k => ['.', Nat.digitChar k]

/-! ## What is read -/

theorem splitAtPoint_of_notMem {cs : List Char} (h : '.' ∉ cs) : splitAtPoint cs = (cs, none) := by
  induction cs with
  | nil => rfl
  | cons c cs ih =>
      rw [List.mem_cons, not_or] at h
      rw [splitAtPoint, ih h.2]
      exact fun hc => h.1 hc.symm

theorem splitAtPoint_append {cs : List Char} (h : '.' ∉ cs) (ds : List Char) :
    splitAtPoint (cs ++ '.' :: ds) = (cs, some ds) := by
  induction cs with
  | nil => rfl
  | cons c cs ih =>
      rw [List.mem_cons, not_or] at h
      rw [List.cons_append, splitAtPoint, ih h.2]
      exact fun hc => h.1 hc.symm

theorem dropWhile_of_notMem {cs : List Char} (h : '.' ∉ cs) : cs.dropWhile (· ≠ '.') = [] := by
  rw [List.dropWhile_eq_nil_iff]
  exact fun c hc => decide_eq_true fun heq => h (heq ▸ hc)

theorem dropWhile_append {cs : List Char} (h : '.' ∉ cs) (ds : List Char) :
    (cs ++ '.' :: ds).dropWhile (· ≠ '.') = '.' :: ds := by
  have hall : ∀ c ∈ cs, decide (c ≠ '.') = true :=
    fun c hc => decide_eq_true fun heq => h (heq ▸ hc)
  rw [List.dropWhile_append_of_pos hall]
  rfl

theorem eq_of_splitAtPoint {cs before : List Char} {behind : Option (List Char)}
    (h : splitAtPoint cs = (before, behind)) :
    cs = before ++ (behind.map ('.' :: ·)).getD [] := by
  fun_induction splitAtPoint cs generalizing before with
  | case1 =>
      cases h
      rfl
  | case2 cs =>
      cases h
      rfl
  | case3 c cs _ before' behind' hsplit ih =>
      cases h
      rw [List.cons_append, ← ih hsplit]

end Stem

theorem digitValue?_point (base : Nat) : digitValue? base '.' = none := rfl

theorem IsNumeral.point_notMem {base n : Nat} {cs : List Char} (h : IsNumeral base cs n) :
    '.' ∉ cs := by
  rcases h with h | ⟨ds, rfl, h⟩
  · exact fun hmem => h.digitValue?_ne_none hmem (digitValue?_point base)
  · rw [List.mem_cons, not_or]
    exact ⟨by decide, fun hmem => h.digitValue?_ne_none hmem (digitValue?_point base)⟩

theorem byteOfDigits?_eq_some_iff {high low : Char} {x : UInt8} :
    byteOfDigits? high low = some x ↔ IsNumeral 16 [high, low] x.toNat := by
  have hread {n : Nat} : Numeral.read 16 256 [high, low] = .ok n ↔ _ :=
    Numeral.read_eq_ok_iff (by decide) (by decide)
  rw [byteOfDigits?, Option.map_eq_some_iff]
  constructor
  · rintro ⟨n, hn, rfl⟩
    rw [toOption_eq_some_iff, hread] at hn
    rw [show n.toUInt8.toNat = n from UInt8.toNat_ofNat_of_lt hn.2]
    exact hn.1
  · intro h
    refine ⟨x.toNat, ?_, UInt8.ofNat_toNat⟩
    rw [toOption_eq_some_iff, hread]
    exact ⟨h, x.toNat_lt⟩

namespace Stem

theorem opcodeOfDigits?_eq_some_iff {cs : List Char} {opcode : List UInt8} :
    opcodeOfDigits? cs = some opcode ↔ SpellsOpcode (IsNumeral 16) cs opcode := by
  constructor
  · intro h
    unfold opcodeOfDigits? at h
    split at h
    · obtain ⟨x, hx, rfl⟩ := Option.map_eq_some_iff.mp h
      exact .one (byteOfDigits?_eq_some_iff.mp hx)
    · obtain ⟨x, hx, h⟩ := Option.bind_eq_some_iff.mp h
      obtain ⟨y, hy, h⟩ := Option.bind_eq_some_iff.mp h
      cases h
      exact .two (byteOfDigits?_eq_some_iff.mp hx) (byteOfDigits?_eq_some_iff.mp hy)
    · cases h
  · intro h
    cases h with
    | one first =>
        rw [opcodeOfDigits?, byteOfDigits?_eq_some_iff.mpr first]
        rfl
    | two first second =>
        rw [opcodeOfDigits?, byteOfDigits?_eq_some_iff.mpr first,
          byteOfDigits?_eq_some_iff.mpr second]
        rfl

theorem SpellsOpcode.notMem {spells : List Char → Nat → Prop} {cs : List Char}
    {opcode : List UInt8} (h : SpellsOpcode spells cs opcode) {c : Char}
    (hc : ∀ {pair n}, spells pair n → c ∉ pair) : c ∉ cs := by
  cases h with
  | one first => exact hc first
  | two first second => exact fun hmem => (List.mem_append.mp hmem).elim (hc first) (hc second)

theorem SpellsOpcode.point_notMem {cs : List Char} {opcode : List UInt8}
    (h : SpellsOpcode (IsNumeral 16) cs opcode) : '.' ∉ cs :=
  h.notMem IsNumeral.point_notMem

/-- The names that are read. -/
theorem ofText?_eq_some_iff_isAccepted {text : String} {stem : Stem} :
    ofText? text = some stem ↔ IsAccepted text.toList stem := by
  have hread {ds : List Char} {k : Nat} : Numeral.read 10 8 ds = .ok k ↔ _ :=
    Numeral.read_eq_ok_iff (by decide) (by decide)
  constructor
  · intro h
    unfold ofText? at h
    cases hsplit : splitAtPoint text.toList with
    | mk before behind =>
        rw [hsplit] at h
        obtain ⟨opcode, hopcode, h⟩ := Option.bind_eq_some_iff.mp h
        rw [opcodeOfDigits?_eq_some_iff] at hopcode
        rw [eq_of_splitAtPoint hsplit]
        cases behind with
        | none =>
            cases h
            exact (List.append_nil before).symm ▸ .opcode hopcode
        | some ds =>
            obtain ⟨k, hk, h⟩ := Option.bind_eq_some_iff.mp h
            cases h
            rw [toOption_eq_some_iff, hread] at hk
            exact .member hopcode hk.1 hk.2
  · intro h
    unfold ofText?
    generalize text.toList = cs at h
    cases h with
    | opcode hopcode =>
        rw [splitAtPoint_of_notMem hopcode.point_notMem]
        dsimp only
        rw [opcodeOfDigits?_eq_some_iff.mpr hopcode]
        rfl
    | member hopcode hmember hk =>
        rw [splitAtPoint_append hopcode.point_notMem]
        dsimp only
        rw [opcodeOfDigits?_eq_some_iff.mpr hopcode, hread.mpr ⟨hmember, hk⟩]
        rfl

end Stem

/-! ## What is meant -/

theorem IsNumeral.denotes {base n : Nat} {cs : List Char} (h : IsNumeral base cs n)
    (hplus : '+' ∉ cs) : Denotes base cs n := by
  rcases h with h | ⟨ds, rfl, -⟩
  · exact h
  · exact absurd List.mem_cons_self hplus

theorem plus_notMem_of_denotes {base n : Nat} {cs : List Char} (h : Denotes base cs n) :
    '+' ∉ cs :=
  fun hmem => h.digitValue?_ne_none hmem rfl

namespace Stem

theorem SpellsOpcode.mono {s t : List Char → Nat → Prop} {cs : List Char} {opcode : List UInt8}
    (h : SpellsOpcode s cs opcode) (hst : ∀ {pair n}, pair ⊆ cs → s pair n → t pair n) :
    SpellsOpcode t cs opcode := by
  cases h with
  | one first => exact .one (hst (List.Subset.refl _) first)
  | two first second =>
      exact .two (hst (List.subset_append_left _ [_, _]) first)
        (hst (List.subset_append_right [_, _] _) second)

theorem IsDocumented.isAccepted {cs : List Char} {stem : Stem} (h : IsDocumented cs stem) :
    IsAccepted cs stem := by
  cases h with
  | opcode hopcode => exact .opcode (hopcode.mono fun _ => .inl)
  | member hopcode hmember hk => exact .member (hopcode.mono fun _ => .inl) (.inl hmember.2) hk

theorem SpellsOpcode.plus_notMem {cs : List Char} {opcode : List UInt8}
    (h : SpellsOpcode (Denotes 16) cs opcode) : '+' ∉ cs :=
  h.notMem plus_notMem_of_denotes

theorem IsDocumented.isPlain {cs : List Char} {stem : Stem} (h : IsDocumented cs stem) :
    IsPlain cs := by
  cases h with
  | opcode hopcode =>
      have hpoint := (hopcode.mono fun _ => Or.inl).point_notMem
      exact ⟨hopcode.plus_notMem, dropWhile_of_notMem hpoint ▸ Nat.zero_le 2⟩
  | @member cs ds opcode k hopcode hmember hk =>
      have hpoint := (hopcode.mono fun _ => Or.inl).point_notMem
      constructor
      · rw [List.mem_append, List.mem_cons, not_or, not_or]
        exact ⟨hopcode.plus_notMem, by decide, plus_notMem_of_denotes hmember.2⟩
      · rw [dropWhile_append hpoint, List.length_cons, hmember.1]

/-- The names that are meant are those among the names read that have no sign and no more than one
character behind the point. -/
theorem isDocumented_iff {cs : List Char} {stem : Stem} :
    IsDocumented cs stem ↔ IsAccepted cs stem ∧ IsPlain cs := by
  refine ⟨fun h => ⟨h.isAccepted, h.isPlain⟩, ?_⟩
  rintro ⟨h, hplus, hlength⟩
  cases h with
  | opcode hopcode =>
      exact .opcode (hopcode.mono fun hsub hpair => hpair.denotes fun hmem => hplus (hsub hmem))
  | @member cs ds opcode k hopcode hmember hk =>
      rw [dropWhile_append hopcode.point_notMem, List.length_cons] at hlength
      rw [List.mem_append, List.mem_cons, not_or, not_or] at hplus
      have hdigits := hmember.denotes hplus.2.2
      have hpos := List.length_pos_iff.mpr hdigits.1
      exact .member
        (hopcode.mono fun hsub hpair => hpair.denotes fun hmem => hplus.1 (hsub hmem))
        ⟨by omega, hdigits⟩ hk

/-! ## Names of one stem -/

theorem lower_of_denotes_pair {a b : Char} {x : UInt8} (h : Denotes 16 [a, b] x.toNat) :
    Text.lower [a, b] = Numeral.byteDigits x := by
  obtain ⟨high, low, hhigh, hlow, hx⟩ := h.exists_of_pair
  have hlt := Numeral.digitValue?_lt hlow
  rw [Numeral.byteDigits_eq, show x.toNat / 16 = high by omega, show x.toNat % 16 = low by omega,
    ← Numeral.toLower_of_digitValue? (by decide) hhigh,
    ← Numeral.toLower_of_digitValue? (by decide) hlow]
  rfl

theorem SpellsOpcode.lower_eq {cs : List Char} {opcode : List UInt8}
    (h : SpellsOpcode (Denotes 16) cs opcode) :
    Text.lower cs = opcode.flatMap Numeral.byteDigits := by
  cases h with
  | one first => exact (lower_of_denotes_pair first).trans (List.append_nil _).symm
  | @two a b c d x y first second =>
      rw [List.flatMap_cons, ← lower_of_denotes_pair first, List.flatMap_singleton,
        ← lower_of_denotes_pair second]
      rfl

/-- What is meant by a name determines it, but for the case of its letters. -/
theorem IsDocumented.lower_eq {cs : List Char} {stem : Stem} (h : IsDocumented cs stem) :
    Text.lower cs = stem.name := by
  cases h with
  | opcode hopcode => exact hopcode.lower_eq.trans (List.append_nil _).symm
  | @member cs ds opcode k hopcode hmember hk =>
      obtain ⟨hlength, hdigits⟩ := hmember
      obtain ⟨c, rfl⟩ := List.length_eq_one_iff.mp hlength
      rw [Numeral.denotes_singleton_iff] at hdigits
      rw [Text.lower_append, hopcode.lower_eq]
      exact congrArg (fun c => _ ++ ['.', c]) (Numeral.toLower_of_digitValue? (by decide) hdigits)

/-- The names that are read are made of numerals: two characters for each of one or two bytes, and
behind a point, if there is one, a numeral below eight. All names that are meant are among them,
read as they are meant, and the others are those with a sign or with more than one character behind
the point. Without these, two names that are read as the same stem differ only in the case of their
letters. -/
theorem ofText?_eq_some_iff (text : String) (stem : Stem) :
    (ofText? text = some stem ↔ IsAccepted text.toList stem) ∧
    (IsDocumented text.toList stem ↔ ofText? text = some stem ∧ IsPlain text.toList) ∧
    (∀ other : String, IsPlain text.toList → IsPlain other.toList →
      ofText? text = some stem → ofText? other = some stem →
      Text.lower text.toList = Text.lower other.toList) := by
  have hmeant (text : String) :
      IsDocumented text.toList stem ↔ ofText? text = some stem ∧ IsPlain text.toList := by
    rw [isDocumented_iff, ofText?_eq_some_iff_isAccepted]
  refine ⟨ofText?_eq_some_iff_isAccepted, hmeant text, fun other hplain hplain' h h' => ?_⟩
  have hlower := ((hmeant text).mpr ⟨h, hplain⟩).lower_eq
  have hlower' := ((hmeant other).mpr ⟨h', hplain'⟩).lower_eq
  rw [hlower, hlower']

/-- A member of a group, in capitals and in small letters. -/
theorem ofText?_eq_some_iff_case :
    let stem : Stem := { opcode := [0x0F, 0xBA], subOpcode := some 7 }
    ofText? "0FBA.7" = some stem ∧ ofText? "0fbA.7" = some stem ∧
      IsPlain "0FBA.7".toList ∧ IsPlain "0fbA.7".toList ∧
      IsDocumented "0FBA.7".toList stem ∧
      Text.lower "0FBA.7".toList = Text.lower "0fbA.7".toList := by
  intro stem
  have hread : ofText? "0FBA.7" = some stem := by decide +kernel
  have hother : ofText? "0fbA.7" = some stem := by decide +kernel
  have hplain : IsPlain "0FBA.7".toList := by decide +kernel
  have hplain' : IsPlain "0fbA.7".toList := by decide +kernel
  obtain ⟨-, hmeant, hcase⟩ := ofText?_eq_some_iff "0FBA.7" stem
  exact ⟨hread, hother, hplain, hplain', hmeant.mpr ⟨hread, hplain⟩,
    hcase "0fbA.7" hplain hplain' hread hother⟩

/-- A sign is taken for the first digit of a byte, so a name is read that is not meant, and as
another is read that differs in more than letters. -/
theorem not_forall_isDocumented :
    (¬ ∀ text stem, ofText? text = some stem → IsDocumented text.toList stem) ∧
      ¬ ∀ text other stem, ofText? text = some stem → ofText? other = some stem →
        Text.lower text.toList = Text.lower other.toList := by
  have hsigned : ofText? "+8" = some { opcode := [8] } := by decide +kernel
  have hmeant : ofText? "08" = some { opcode := [8] } := by decide +kernel
  constructor
  · intro h
    exact absurd (h _ _ hsigned).isPlain (by decide +kernel)
  · intro h
    exact absurd (h _ _ _ hsigned hmeant) (by decide +kernel)

end Stem

end Corpus

end Iapx86
