import Iapx86.Text.Numeral

/-!
# Numerals read back

Reading the digits of a number gives the number (`Numeral.readDigits_digits`), so no two numbers
have the same numeral, with or without a sign. What is read at all are digits, possibly behind a
plus sign, that denote a number below the limit (`Numeral.read_eq_ok_iff`). What stands around a
numeral in a text can be told from it, since digits are letters and figures and nothing else.
-/

namespace Iapx86

namespace Numeral

variable {base limit n : Nat}

/-! ## Digits -/

theorem digitValue?_digitChar {d : Nat} (hbase : base ≤ 16) (hd : d < base) :
    digitValue? base (Nat.digitChar d) = some d := by
  have htable : ∀ base < 17, ∀ d < base, digitValue? base (Nat.digitChar d) = some d := by
    decide +kernel
  exact htable base (by omega) d hd

theorem digits_of_lt (h : n < base) : digits base n = [Nat.digitChar n] :=
  Nat.toDigits_of_lt_base h

theorem digits_of_le (hbase : 1 < base) (h : base ≤ n) :
    digits base n = digits base (n / base) ++ [Nat.digitChar (n % base)] :=
  Nat.toDigits_of_base_le hbase h

/-- The digits of a number by recursion from the last of them. -/
theorem digits_induction (hbase : 1 < base) {P : Nat → List Char → Prop}
    (hlast : ∀ d < base, P d [Nat.digitChar d])
    (hmore : ∀ n, base ≤ n → P (n / base) (digits base (n / base)) →
      P n (digits base (n / base) ++ [Nat.digitChar (n % base)]))
    (n : Nat) : P n (digits base n) := by
  induction n using Nat.strongRecOn with
  | ind n ih =>
      by_cases h : n < base
      · rw [digits_of_lt h]
        exact hlast n h
      · have hle : base ≤ n := Nat.le_of_not_lt h
        have hdiv : n / base < n := Nat.div_lt_self (by omega) hbase
        rw [digits_of_le hbase hle]
        exact hmore n hle (ih _ hdiv)

/-- A byte has a digit for each of its halves. -/
theorem byteDigits_eq (b : UInt8) :
    byteDigits b = [Nat.digitChar (b.toNat / 16), Nat.digitChar (b.toNat % 16)] := by
  have hlt : b.toNat < 256 := b.toNat_lt
  by_cases h : b.toNat < 16
  · rw [byteDigits, digits_of_lt h, Nat.div_eq_of_lt h, Nat.mod_eq_of_lt h]
    rfl
  · rw [byteDigits, digits_of_le (by decide) (Nat.le_of_not_lt h), digits_of_lt (by omega)]
    rfl

theorem mem_digits (hbase : 1 < base) {c : Char} (h : c ∈ digits base n) :
    ∃ d < base, c = Nat.digitChar d := by
  induction n using digits_induction hbase with
  | hlast d hd => exact ⟨d, hd, List.mem_singleton.mp h⟩
  | hmore n hle ih =>
      rcases List.mem_append.mp h with hfirst | hlast
      · exact ih hfirst
      · exact ⟨n % base, Nat.mod_lt n (by omega), List.mem_singleton.mp hlast⟩

theorem isAlphanum_of_mem_digits (hbase : 1 < base) (hbase' : base ≤ 16) {c : Char}
    (h : c ∈ digits base n) : c.isAlphanum = true := by
  have htable : ∀ d < 16, (Nat.digitChar d).isAlphanum = true := by decide +kernel
  obtain ⟨d, hd, rfl⟩ := mem_digits hbase h
  exact htable d (by omega)

theorem digitValue?_lt {d : Nat} {c : Char} (h : digitValue? base c = some d) : d < base :=
  of_decide_eq_true (Option.filter_eq_some_iff.mp h).2

theorem digitValue?_eq_some_mono {base' d : Nat} {c : Char} (hle : base ≤ base')
    (h : digitValue? base c = some d) : digitValue? base' c = some d := by
  obtain ⟨hvalue, hlt⟩ := Option.filter_eq_some_iff.mp h
  exact Option.filter_eq_some_iff.mpr
    ⟨hvalue, decide_eq_true (Nat.lt_of_lt_of_le (of_decide_eq_true hlt) hle)⟩

theorem toNat_lt_of_digitValue? {d : Nat} {c : Char} (h : digitValue? base c = some d) :
    c.toNat < 123 := by
  obtain ⟨hvalue, -⟩ := Option.filter_eq_some_iff.mp h
  split at hvalue
  · next hfigure => exact Nat.lt_of_le_of_lt hfigure.2 (by decide)
  · split at hvalue
    · next hlower => exact Nat.lt_of_le_of_lt hlower.2 (by decide)
    · split at hvalue
      · next hupper => exact Nat.lt_of_le_of_lt hupper.2 (by decide)
      · cases hvalue

/-- What holds of the digits in a table of the characters up to the last letter holds of all. -/
theorem forall_digit {P : Char → Nat → Prop}
    (htable : ∀ n < 123, ∀ d ∈ digitValue? 16 (Char.ofNat n), P (Char.ofNat n) d)
    (hbase : base ≤ 16) {d : Nat} {c : Char} (h : digitValue? base c = some d) : P c d := by
  have hd := htable c.toNat (toNat_lt_of_digitValue? h) d
  rw [Char.ofNat_toNat] at hd
  exact hd (digitValue?_eq_some_mono hbase h)

/-- A digit in lower case is the one that is written for its value. -/
theorem toLower_of_digitValue? (hbase : base ≤ 16) {d : Nat} {c : Char}
    (h : digitValue? base c = some d) : c.toLower = Nat.digitChar d :=
  forall_digit (P := fun c d => c.toLower = Nat.digitChar d) (by decide +kernel) hbase h

/-- A digit in upper case has the same value. -/
theorem digitValue?_toUpper (hbase : base ≤ 16) {d : Nat} {c : Char}
    (h : digitValue? base c = some d) : digitValue? base c.toUpper = some d := by
  have hd := forall_digit (P := fun c d => digitValue? 16 c.toUpper = some d) (by decide +kernel)
    hbase h
  obtain ⟨hvalue, -⟩ := Option.filter_eq_some_iff.mp hd
  exact Option.filter_eq_some_iff.mpr ⟨hvalue, decide_eq_true (digitValue?_lt h)⟩

/-! ## Reading -/

theorem readDigits_append (value : Nat) (cs ds : List Char) :
    readDigits base limit value (cs ++ ds) =
      (readDigits base limit value cs).bind fun value => readDigits base limit value ds := by
  induction cs generalizing value with
  | nil => rfl
  | cons c cs ih =>
      rw [List.cons_append, readDigits, readDigits]
      cases digitValue? base c with
      | none => rfl
      | some digit =>
          dsimp only
          split
          · exact ih _
          · rfl

theorem readDigits_digitChar (hbase : base ≤ 16) {value d : Nat} (hd : d < base)
    (hlimit : value * base + d < limit) :
    readDigits base limit value [Nat.digitChar d] = .ok (value * base + d) := by
  rw [readDigits, digitValue?_digitChar hbase hd]
  exact if_pos hlimit

/-- The digits of a number below the limit are read as the number. -/
theorem readDigits_digits (hbase : 1 < base) (hbase' : base ≤ 16) (h : n < limit) :
    readDigits base limit 0 (digits base n) = .ok n := by
  induction n using digits_induction hbase with
  | hlast d hd =>
      rw [readDigits_digitChar hbase' hd (by omega), Nat.zero_mul, Nat.zero_add]
  | hmore n hle ih =>
      have hdiv : n / base ≤ n := Nat.div_le_self n base
      have hmod : n % base < base := Nat.mod_lt n (by omega)
      have hwhole : n / base * base + n % base = n := Nat.div_add_mod' n base
      rw [readDigits_append, ih (by omega)]
      exact (readDigits_digitChar hbase' hmod (by omega)).trans (congrArg _ hwhole)

theorem digits_inj (hbase : 1 < base) (hbase' : base ≤ 16) {m n : Nat} :
    digits base m = digits base n ↔ m = n := by
  refine ⟨fun h => ?_, congrArg _⟩
  have hm : m < max m n + 1 := by omega
  have hn : n < max m n + 1 := by omega
  have hread := (readDigits_digits hbase hbase' hm).symm.trans
    ((congrArg _ h).trans (readDigits_digits hbase hbase' hn))
  exact Except.ok.inj hread

/-! ## What is read -/

/-- The number that digits denote, when they go on after those of `value`. -/
def valueFrom? (base value : Nat) : List Char → Option Nat
  | [] => some value
  | c :: cs =>
      (digitValue? base c).bind fun digit => valueFrom? base (value * base + digit) cs

@[simp] theorem valueFrom?_nil (value : Nat) : valueFrom? base value [] = some value := rfl

theorem valueFrom?_cons (value : Nat) (c : Char) (cs : List Char) :
    valueFrom? base value (c :: cs) =
      (digitValue? base c).bind fun digit => valueFrom? base (value * base + digit) cs := rfl

/-- The text is made of digits, at least one, that denote the number. -/
def Denotes (base : Nat) (cs : List Char) (n : Nat) : Prop :=
  cs ≠ [] ∧ valueFrom? base 0 cs = some n

theorem le_of_valueFrom? (hbase : 0 < base) {value : Nat} {cs : List Char}
    (h : valueFrom? base value cs = some n) : value ≤ n := by
  induction cs generalizing value with
  | nil => exact Nat.le_of_eq (Option.some.inj h)
  | cons c cs ih =>
      obtain ⟨digit, -, hrest⟩ := Option.bind_eq_some_iff.mp h
      have hvalue : value ≤ value * base := Nat.le_mul_of_pos_right value hbase
      have hn := ih hrest
      omega

/-- Digits are read as the number that they denote, or else it is too large. -/
theorem readDigits_of_valueFrom? (hbase : 0 < base) {value : Nat} (hvalue : value < limit)
    {cs : List Char} (h : valueFrom? base value cs = some n) :
    readDigits base limit value cs = if n < limit then .ok n else .error .tooLarge := by
  induction cs generalizing value with
  | nil =>
      obtain rfl := Option.some.inj h
      exact (if_pos hvalue).symm
  | cons c cs ih =>
      obtain ⟨digit, hdigit, hrest⟩ := Option.bind_eq_some_iff.mp h
      rw [readDigits, hdigit]
      dsimp only
      split
      · next hroom => exact ih hroom hrest
      · next hlarge =>
          -- The number only grows with the digits that follow.
          have hn := le_of_valueFrom? hbase hrest
          exact (if_neg (by omega)).symm

theorem readDigits_eq_ok_iff (hbase : 0 < base) {value : Nat} (hvalue : value < limit)
    {cs : List Char} :
    readDigits base limit value cs = .ok n ↔ valueFrom? base value cs = some n ∧ n < limit := by
  constructor
  · intro h
    induction cs generalizing value with
    | nil =>
        obtain rfl := Except.ok.inj h
        exact ⟨rfl, hvalue⟩
    | cons c cs ih =>
        rw [readDigits] at h
        rw [valueFrom?_cons]
        cases hdigit : digitValue? base c with
        | none =>
            rw [hdigit] at h
            cases h
        | some digit =>
            rw [hdigit] at h
            dsimp only at h
            split at h
            · next hroom => exact ih hroom h
            · cases h
  · rintro ⟨hdigits, hn⟩
    rw [readDigits_of_valueFrom? hbase hvalue hdigits, if_pos hn]

theorem digitValue?_ne_none_of_valueFrom? {value : Nat} {cs : List Char}
    (h : valueFrom? base value cs = some n) {c : Char} (hc : c ∈ cs) :
    digitValue? base c ≠ none := by
  induction cs generalizing value with
  | nil => cases hc
  | cons c' cs ih =>
      obtain ⟨digit, hdigit, hrest⟩ := Option.bind_eq_some_iff.mp h
      rcases List.mem_cons.mp hc with rfl | hmem
      · rw [hdigit]
        exact Option.some_ne_none digit
      · exact ih hrest hmem

theorem Denotes.digitValue?_ne_none {cs : List Char} (h : Denotes base cs n) {c : Char}
    (hc : c ∈ cs) : digitValue? base c ≠ none :=
  digitValue?_ne_none_of_valueFrom? h.2 hc

theorem denotes_singleton_iff {c : Char} : Denotes base [c] n ↔ digitValue? base c = some n := by
  simp [Denotes, valueFrom?_cons]

theorem Denotes.exists_of_pair {c d : Char} (h : Denotes base [c, d] n) :
    ∃ high low, digitValue? base c = some high ∧ digitValue? base d = some low ∧
      high * base + low = n := by
  obtain ⟨high, hhigh, h⟩ := Option.bind_eq_some_iff.mp h.2
  obtain ⟨low, hlow, h⟩ := Option.bind_eq_some_iff.mp h
  rw [Nat.zero_mul, Nat.zero_add] at h
  exact ⟨high, low, hhigh, hlow, Option.some.inj h⟩

theorem Denotes.ne_plus {cs : List Char} (h : Denotes base cs n) (ds : List Char) :
    cs ≠ '+' :: ds := by
  rintro rfl
  exact h.digitValue?_ne_none List.mem_cons_self rfl

theorem valueFrom?_map_toUpper (hbase : base ≤ 16) {value : Nat} {cs : List Char}
    (h : valueFrom? base value cs = some n) :
    valueFrom? base value (cs.map Char.toUpper) = some n := by
  induction cs generalizing value with
  | nil => exact h
  | cons c cs ih =>
      obtain ⟨digit, hdigit, hrest⟩ := Option.bind_eq_some_iff.mp h
      rw [List.map_cons, valueFrom?_cons, digitValue?_toUpper hbase hdigit]
      exact ih hrest

/-- Upper case denotes the same number. -/
theorem Denotes.map_toUpper (hbase : base ≤ 16) {cs : List Char} (h : Denotes base cs n) :
    Denotes base (cs.map Char.toUpper) n :=
  ⟨mt List.map_eq_nil_iff.mp h.1, valueFrom?_map_toUpper hbase h.2⟩

/-- Zeros in front do not count. -/
theorem Denotes.padLeft (hbase : 0 < base) {cs : List Char} (h : Denotes base cs n)
    (width : Nat) : Denotes base (padLeft width '0' cs) n := by
  refine ⟨List.append_ne_nil_of_right_ne_nil _ h.1, ?_⟩
  have hzero : digitValue? base '0' = some 0 := by
    simp [digitValue?, hbase]
  rw [Numeral.padLeft]
  induction width - cs.length with
  | zero => exact h.2
  | succ k ih =>
      rw [List.replicate_succ, List.cons_append, valueFrom?_cons, hzero, Option.bind_some,
        Nat.zero_mul]
      exact ih

theorem read_of_denotes (hbase : 0 < base) (hlimit : 0 < limit) {cs : List Char}
    (h : Denotes base cs n) :
    read base limit cs = if n < limit then .ok n else .error .tooLarge := by
  have hread : read base limit cs = readDigits base limit 0 cs := by
    unfold read
    split
    · exact absurd rfl h.1
    · exact absurd rfl (h.ne_plus _)
    · exact absurd rfl (h.ne_plus _)
    · rfl
  rw [hread, readDigits_of_valueFrom? hbase hlimit h.2]

/-- The numerals that are read: digits, behind a plus sign or not. -/
theorem read_eq_ok_iff (hbase : 0 < base) (hlimit : 0 < limit) {cs : List Char} :
    read base limit cs = .ok n ↔
      (Denotes base cs n ∨ ∃ ds, cs = '+' :: ds ∧ Denotes base ds n) ∧ n < limit := by
  have hdigits {ds : List Char} : readDigits base limit 0 ds = .ok n ↔ _ :=
    readDigits_eq_ok_iff hbase hlimit
  constructor
  · intro h
    unfold read at h
    split at h
    · cases h
    · cases h
    · next ds hne =>
        obtain ⟨hvalue, hn⟩ := hdigits.mp h
        exact ⟨.inr ⟨ds, rfl, hne, hvalue⟩, hn⟩
    · next hne _ _ =>
        obtain ⟨hvalue, hn⟩ := hdigits.mp h
        exact ⟨.inl ⟨hne, hvalue⟩, hn⟩
  · rintro ⟨h | ⟨ds, rfl, h⟩, hn⟩
    · rw [read_of_denotes hbase hlimit h, if_pos hn]
    · obtain ⟨c, ds, rfl⟩ := List.exists_cons_of_ne_nil h.1
      exact hdigits.mpr ⟨h.2, hn⟩

/-- The digits of a number denote it. -/
theorem denotes_digits (hbase : 1 < base) (hbase' : base ≤ 16) (n : Nat) :
    Denotes base (digits base n) n := by
  have hread := readDigits_digits hbase hbase' n.lt_succ_self
  exact ⟨Nat.toDigits_ne_nil, ((readDigits_eq_ok_iff (by omega) n.succ_pos).mp hread).1⟩

/-! ## Hexadecimal numerals -/

theorem toList_hexadecimal (n : Nat) : (hexadecimal n).toList = '0' :: 'x' :: digits 16 n := by
  rw [hexadecimal, String.toList_append, String.toList_ofList, String.toList_ofList]
  rfl

theorem toList_signedHexadecimal (n : Int) :
    (signedHexadecimal n).toList =
      (if n < 0 then '-' else '+') :: (hexadecimal n.natAbs).toList := by
  rw [signedHexadecimal]
  split
  · exact String.toList_append
  · exact String.toList_append

theorem isAlphanum_of_mem_hexadecimal {c : Char} (h : c ∈ (hexadecimal n).toList) :
    c.isAlphanum = true := by
  rw [toList_hexadecimal, List.mem_cons, List.mem_cons] at h
  rcases h with rfl | rfl | hdigit
  · rfl
  · rfl
  · exact isAlphanum_of_mem_digits (by decide) (by decide) hdigit

theorem hexadecimal_inj {m n : Nat} : hexadecimal m = hexadecimal n ↔ m = n := by
  rw [← String.toList_inj, toList_hexadecimal, toList_hexadecimal, List.cons_inj_right,
    List.cons_inj_right, digits_inj (by decide) (by decide)]

theorem signedHexadecimal_inj {m n : Int} :
    signedHexadecimal m = signedHexadecimal n ↔ m = n := by
  refine ⟨fun h => ?_, congrArg _⟩
  rw [← String.toList_inj, toList_signedHexadecimal, toList_signedHexadecimal, List.cons.injEq,
    String.toList_inj, hexadecimal_inj] at h
  obtain ⟨hsign, habs⟩ := h
  split at hsign <;> split at hsign
  · omega
  · cases hsign
  · cases hsign
  · omega

end Numeral

end Iapx86
