import Iapx86.Instruction.Text
import Iapx86.Proofs.Numerals
import Iapx86.Proofs.WellFormed

/-!
# Operands as they are written

What is written for the operands of an instruction is a list of `WrittenOperand`, each of which has
what its text shows and nothing else (`Instruction.operandTexts_eq`). The kinds can be told apart
by single characters (`WrittenOperand.kindOf_text`), and within a kind the parts are separated by
characters that do not occur in them, so no two written operands have the same text
(`WrittenOperand.text_inj`).
-/

namespace Iapx86

open Numeral (hexadecimal signedHexadecimal)

/-! ## Texts with a delimiter -/

section Delimiter

variable {x : Char} {a a' r r' : List Char}

/-- The text ends, or the delimiter comes next. -/
def IsCut (x : Char) (r : List Char) : Prop := ∀ c ∈ r.head?, c = x

theorem isCut_nil (x : Char) : IsCut x [] := nofun

theorem isCut_cons (x : Char) (r : List Char) : IsCut x (x :: r) := by
  rintro c ⟨⟩
  rfl

theorem takeWhile_eq_of_isCut (ha : x ∉ a) (hr : IsCut x r) :
    (a ++ r).takeWhile (· ≠ x) = a := by
  have hall : ∀ c ∈ a, decide (c ≠ x) = true := by
    intro c hc
    exact decide_eq_true fun heq => ha (heq ▸ hc)
  have hrest : r.takeWhile (· ≠ x) = [] := by
    cases r with
    | nil => rfl
    | cons c r =>
        have hc : c = x := hr c rfl
        rw [List.takeWhile_cons_of_neg (by simp [hc])]
  rw [List.takeWhile_append_of_pos hall, hrest, List.append_nil]

/-- What comes before the delimiter can be told from the rest. -/
theorem append_inj_of_isCut (ha : x ∉ a) (ha' : x ∉ a') (hr : IsCut x r) (hr' : IsCut x r')
    (h : a ++ r = a' ++ r') : a = a' ∧ r = r' := by
  have hfirst : a = a' := by
    rw [← takeWhile_eq_of_isCut ha hr, h, takeWhile_eq_of_isCut ha' hr']
  exact ⟨hfirst, List.append_cancel_left (hfirst ▸ h)⟩

end Delimiter

theorem notMem_hexadecimal {c : Char} (hc : c.isAlphanum = false) (n : Nat) :
    c ∉ (hexadecimal n).toList := by
  intro h
  rw [Numeral.isAlphanum_of_mem_hexadecimal h] at hc
  cases hc

theorem notMem_signedHexadecimal {c : Char} (hc : c.isAlphanum = false) (hsign : c ∉ ['+', '-'])
    (n : Int) : c ∉ (signedHexadecimal n).toList := by
  rw [Numeral.toList_signedHexadecimal, List.mem_cons, not_or]
  refine ⟨?_, notMem_hexadecimal hc _⟩
  split <;> simp_all

/-! ## Addresses -/

/-- An address as it is written between brackets. -/
inductive WrittenAddress where
  | direct (displacement : Int16)
  | sum (registers : ScaleIndexBase) (displacement : Int16)
  deriving DecidableEq, Repr

/-- The registers of an address. -/
def ScaleIndexBase.text (registers : ScaleIndexBase) : String :=
  "+".intercalate ((registers.base.toList ++ registers.index.toList).map (Register.name .word))

/-- The distance from the registers, which is left out if there is none. -/
def distanceText (displacement : Int16) : String :=
  if displacement = 0 then "" else signedHexadecimal displacement.toInt

namespace WrittenAddress

def text : WrittenAddress → String
  | direct displacement => hexadecimal displacement.toUInt16.toNat
  | sum registers displacement => registers.text ++ distanceText displacement

/-- The registers are those of an address. -/
def IsLegible : WrittenAddress → Prop
  | direct _ => True
  | sum registers _ => ∃ n < 8, registers = addressRegisters n

theorem distanceText_eq (d : Int16) :
    ∃ sign ∈ [[], ['+'], ['-']], ∃ rest, IsCut '0' rest ∧
      (distanceText d).toList = sign ++ rest := by
  rw [distanceText]
  split
  · exact ⟨[], by decide, [], isCut_nil _, rfl⟩
  · rw [Numeral.toList_signedHexadecimal, Numeral.toList_hexadecimal]
    split
    · exact ⟨['-'], by decide, _, isCut_cons _ _, rfl⟩
    · exact ⟨['+'], by decide, _, isCut_cons _ _, rfl⟩

theorem distanceText_inj {d d' : Int16} (h : distanceText d = distanceText d') : d = d' := by
  have hne (d : Int16) : "" ≠ signedHexadecimal d.toInt := by
    rw [ne_eq, ← String.toList_inj, Numeral.toList_signedHexadecimal]
    exact (List.cons_ne_nil _ _).symm
  unfold distanceText at h
  split at h
  · next hd =>
      split at h
      · next hd' => rw [hd, hd']
      · exact absurd h (hne d')
  · split at h
    · exact absurd h.symm (hne d)
    · exact Int16.toInt_inj.mp (Numeral.signedHexadecimal_inj.mp h)

theorem notMem_distanceText {c : Char} (hc : c.isAlphanum = false) (hsign : c ∉ ['+', '-'])
    (d : Int16) : c ∉ (distanceText d).toList := by
  rw [distanceText]
  split
  · exact List.not_mem_nil
  · exact notMem_signedHexadecimal hc hsign _

theorem notMem_text {a : WrittenAddress} (ha : a.IsLegible) {c : Char} (hc : c.isAlphanum = false)
    (hsign : c ∉ ['+', '-']) : c ∉ a.text.toList := by
  cases a with
  | direct d => exact notMem_hexadecimal hc _
  | sum registers d =>
      have htable : ∀ n < 8, (addressRegisters n).text.toList.all
          fun c => c.isAlphanum || ['+', '-'].contains c := by decide +kernel
      obtain ⟨n, hn, rfl⟩ := ha
      rw [text, String.toList_append, List.mem_append, not_or]
      refine ⟨fun hmem => ?_, notMem_distanceText hc hsign d⟩
      have hchar := List.all_eq_true.mp (htable n hn) c hmem
      rw [hc, Bool.false_or, List.contains_iff_mem] at hchar
      exact hsign hchar

theorem direct_ne_sum (d d' : Int16) {n : Nat} (hn : n < 8) :
    (direct d).text ≠ (sum (addressRegisters n) d').text := by
  have htable : ∀ n < 8, (addressRegisters n).text.toList.head? ≠ some '0' := by
    decide +kernel
  have hne : ∀ n < 8, (addressRegisters n).text.toList ≠ [] := by decide +kernel
  intro h
  rw [← String.toList_inj, text, text, Numeral.toList_hexadecimal, String.toList_append] at h
  obtain ⟨c, cs, hcs⟩ := List.exists_cons_of_ne_nil (hne n hn)
  rw [hcs, List.cons_append] at h
  exact htable n hn (by rw [hcs, ← (List.cons.inj h).1]; rfl)

theorem text_inj {a a' : WrittenAddress} (ha : a.IsLegible) (ha' : a'.IsLegible)
    (h : a.text = a'.text) : a = a' := by
  cases a with
  | direct d =>
      cases a' with
      | direct d' =>
          have hd := UInt16.toNat_inj.mp (Numeral.hexadecimal_inj.mp h)
          rw [← d.toInt16_toUInt16, hd, d'.toInt16_toUInt16]
      | sum registers' d' =>
          obtain ⟨n, hn, rfl⟩ := ha'
          exact absurd h (direct_ne_sum d d' hn)
  | sum registers d =>
      obtain ⟨n, hn, rfl⟩ := ha
      cases a' with
      | direct d' => exact absurd h.symm (direct_ne_sum d' d hn)
      | sum registers' d' =>
          -- Up to the figures of the distance, there are only these texts.
          have hzero : ∀ n < 8, ∀ sign ∈ [[], ['+'], ['-']],
              '0' ∉ (addressRegisters n).text.toList ++ sign := by decide +kernel
          have htable : ∀ n < 8, ∀ n' < 8, ∀ sign ∈ [[], ['+'], ['-']],
              ∀ sign' ∈ [[], ['+'], ['-']],
              (addressRegisters n).text.toList ++ sign =
                (addressRegisters n').text.toList ++ sign' → n = n' := by
            decide +kernel
          obtain ⟨n', hn', rfl⟩ := ha'
          obtain ⟨sign, hsign, rest, hrest, hd⟩ := distanceText_eq d
          obtain ⟨sign', hsign', rest', hrest', hd'⟩ := distanceText_eq d'
          have hlist := congrArg String.toList h
          rw [text, text, String.toList_append, String.toList_append, hd, hd', ← List.append_assoc,
            ← List.append_assoc] at hlist
          obtain ⟨hhead, -⟩ := append_inj_of_isCut (hzero n hn sign hsign)
            (hzero n' hn' sign' hsign') hrest hrest' hlist
          have hn := htable n hn n' hn' sign hsign sign' hsign' hhead
          subst hn
          rw [text, text, String.append_right_inj] at h
          rw [distanceText_inj h]

end WrittenAddress

/-! ## Operands -/

/-- What is written for one operand. -/
inductive WrittenOperand where
  | number (n : UInt16)
  /-- The distance of a branch. -/
  | distance (d : Int16)
  | pointer (segment offset : UInt16)
  /-- A register under its name in an operation of the width. -/
  | register (r : Register) (width : Width)
  | segment (s : Segment)
  | memory (width : Width) (segmentOverride : Option Segment) (address : WrittenAddress)
  deriving DecidableEq, Repr

/-- The kinds of written operands. -/
inductive WrittenKind where
  | number
  | distance
  | pointer
  | name
  | memory
  deriving DecidableEq, Repr

/-- The segment before an address. -/
def overrideText : Option Segment → String
  | some s => s.name ++ ":"
  | none => ""

namespace WrittenOperand

def text : WrittenOperand → String
  | number n => hexadecimal n.toNat
  | distance d => signedHexadecimal d.toInt
  | pointer s offset => hexadecimal s.toNat ++ ":" ++ hexadecimal offset.toNat
  | register r width => r.name width
  | segment s => s.name
  | memory width segmentOverride address =>
      width.keyword ++ "[" ++ overrideText segmentOverride ++ address.text ++ "]"

def kind : WrittenOperand → WrittenKind
  | number _ => .number
  | distance _ => .distance
  | pointer _ _ => .pointer
  | register _ _ | segment _ => .name
  | memory _ _ _ => .memory

/-- The register has a name in operations of the width, and the registers of an address make one. -/
def IsLegible : WrittenOperand → Prop
  | register r width => r ∈ Register.ofWidth width
  | memory _ _ address => address.IsLegible
  | number _ | distance _ | pointer _ _ | segment _ => True

/-- All operands that are written as a name. -/
def names : List WrittenOperand :=
  Register.bytes.map (register · .byte) ++ Register.words.map (register · .word)
    ++ Segment.all.map segment

theorem mem_names {t : WrittenOperand} (ht : t.IsLegible) (hkind : t.kind = .name) :
    t ∈ names := by
  cases t with
  | register r width =>
      have htable : ∀ width ∈ [Width.implied, .byte, .word, .dword], ∀ r ∈ Register.ofWidth width,
          register r width ∈ names := by decide
      exact htable width (by cases width <;> decide) r ht
  | segment s => cases s <;> decide
  | number _ | distance _ | pointer _ _ | memory _ _ _ => cases hkind

/-! ### The kinds -/

/-- The kind that a text is of, by the characters in it. -/
def kindOf (cs : List Char) : WrittenKind :=
  if '[' ∈ cs then .memory
  else if ':' ∈ cs then .pointer
  else if '+' ∈ cs ∨ '-' ∈ cs then .distance
  else if '0' ∈ cs then .number
  else .name

theorem kindOf_number {cs : List Char} (h : '0' ∈ cs) (halphanum : ∀ c ∈ cs, c.isAlphanum = true) :
    kindOf cs = .number := by
  have hnot (c : Char) (hc : c.isAlphanum = false) : c ∉ cs := by
    intro hmem
    rw [halphanum c hmem] at hc
    cases hc
  rw [kindOf, if_neg (hnot _ rfl), if_neg (hnot _ rfl),
    if_neg (not_or.mpr ⟨hnot _ rfl, hnot _ rfl⟩), if_pos h]

theorem kindOf_text {t : WrittenOperand} (ht : t.IsLegible) : kindOf t.text.toList = t.kind := by
  have hnames : ∀ t ∈ names, kindOf t.text.toList = .name := by decide +kernel
  cases t with
  | number n =>
      have hzero : '0' ∈ (hexadecimal n.toNat).toList := by
        rw [Numeral.toList_hexadecimal]
        exact List.mem_cons_self
      exact kindOf_number hzero fun _ => Numeral.isAlphanum_of_mem_hexadecimal
  | distance d =>
      have hsign : '+' ∈ (signedHexadecimal d.toInt).toList ∨
          '-' ∈ (signedHexadecimal d.toInt).toList := by
        rw [Numeral.toList_signedHexadecimal]
        split
        · exact .inr List.mem_cons_self
        · exact .inl List.mem_cons_self
      rw [text, kindOf, if_neg (notMem_signedHexadecimal rfl (by decide) _),
        if_neg (notMem_signedHexadecimal rfl (by decide) _), if_pos hsign]
      rfl
  | pointer s offset =>
      have hcolon : ':' ∈ (pointer s offset).text.toList := by
        simp [text, String.toList_append]
      have hbracket : '[' ∉ (pointer s offset).text.toList := by
        simp [text, String.toList_append, notMem_hexadecimal]
      rw [kindOf, if_neg hbracket, if_pos hcolon]
      rfl
  | register r width => exact hnames _ (mem_names ht rfl)
  | segment s => exact hnames _ (mem_names ht rfl)
  | memory width s address =>
      have hbracket : '[' ∈ (memory width s address).text.toList := by
        simp [text, String.toList_append]
      rw [kindOf, if_pos hbracket]
      rfl

/-! ### Within a kind -/

theorem pointer_text_inj {s s' offset offset' : UInt16}
    (h : (pointer s offset).text = (pointer s' offset').text) :
    pointer s offset = pointer s' offset' := by
  have hlist (s offset : UInt16) : (pointer s offset).text.toList =
      (hexadecimal s.toNat).toList ++ ':' :: (hexadecimal offset.toNat).toList := by
    rw [text, String.toList_append, String.toList_append, List.append_assoc]
    rfl
  rw [← String.toList_inj, hlist, hlist] at h
  obtain ⟨hsegment, hrest⟩ := append_inj_of_isCut (notMem_hexadecimal rfl _)
    (notMem_hexadecimal rfl _) (isCut_cons ':' _) (isCut_cons ':' _) h
  have hoffset := List.tail_eq_of_cons_eq hrest
  rw [String.toList_inj, Numeral.hexadecimal_inj, UInt16.toNat_inj] at hsegment hoffset
  rw [hsegment, hoffset]

theorem overrideText_append_inj {s s' : Option Segment} {a a' : List Char} (ha : ':' ∉ a)
    (ha' : ':' ∉ a') (h : (overrideText s).toList ++ a = (overrideText s').toList ++ a') :
    s = s' ∧ a = a' := by
  have hsome (s : Segment) (a : List Char) :
      (overrideText (some s)).toList ++ a = s.name.toList ++ ':' :: a := by
    rw [overrideText, String.toList_append, List.append_assoc]
    rfl
  have hne (s : Segment) (a : List Char) {b : List Char} (hb : ':' ∉ b) :
      (overrideText (some s)).toList ++ a ≠ b := by
    rintro rfl
    rw [hsome] at hb
    exact hb (List.mem_append_right _ List.mem_cons_self)
  cases s with
  | none =>
      cases s' with
      | none => exact ⟨rfl, h⟩
      | some s' => exact absurd h.symm (hne s' a' ha)
  | some s =>
      cases s' with
      | none => exact absurd h (hne s a ha')
      | some s' =>
          have hcolon : ∀ s ∈ Segment.all, ':' ∉ s.name.toList := by decide +kernel
          have hall (s : Segment) : s ∈ Segment.all := by cases s <;> decide
          have hname : ∀ s ∈ Segment.all, ∀ s' ∈ Segment.all,
              s.name.toList = s'.name.toList → s = s' := by decide +kernel
          rw [hsome, hsome] at h
          obtain ⟨hs, hrest⟩ := append_inj_of_isCut (hcolon s (hall s)) (hcolon s' (hall s'))
            (isCut_cons ':' _) (isCut_cons ':' _) h
          rw [hname s (hall s) s' (hall s') hs]
          exact ⟨rfl, List.tail_eq_of_cons_eq hrest⟩

theorem memory_text_inj {width width' : Width} {s s' : Option Segment} {a a' : WrittenAddress}
    (ha : a.IsLegible) (ha' : a'.IsLegible)
    (h : (memory width s a).text = (memory width' s' a').text) :
    memory width s a = memory width' s' a' := by
  have hlist (width : Width) (s : Option Segment) (a : WrittenAddress) :
      (memory width s a).text.toList =
        width.keyword.toList ++ '[' :: ((overrideText s).toList ++ (a.text.toList ++ [']'])) := by
    simp [text, String.toList_append]
  have hcolon {a : WrittenAddress} (ha : a.IsLegible) : ':' ∉ a.text.toList ++ [']'] := by
    rw [List.mem_append, not_or]
    exact ⟨a.notMem_text ha rfl (by decide), by decide⟩
  have hbracket (width : Width) : '[' ∉ width.keyword.toList := by
    cases width <;> decide
  have hkeyword (h : width.keyword.toList = width'.keyword.toList) : width = width' := by
    cases width <;> cases width' <;> first | rfl | exact absurd h (by decide)
  rw [← String.toList_inj, hlist, hlist] at h
  obtain ⟨hwidth, hrest⟩ := append_inj_of_isCut (hbracket width) (hbracket width')
    (isCut_cons '[' _) (isCut_cons '[' _) h
  obtain ⟨hs, haddress⟩ := overrideText_append_inj (hcolon ha) (hcolon ha')
    (List.tail_eq_of_cons_eq hrest)
  have hinner := String.toList_inj.mp (List.append_cancel_right haddress)
  rw [hkeyword hwidth, hs, WrittenAddress.text_inj ha ha' hinner]

/-- What is written for an operand can be read off its text. -/
theorem text_inj {t t' : WrittenOperand} (ht : t.IsLegible) (ht' : t'.IsLegible)
    (h : t.text = t'.text) : t = t' := by
  have hkind : t.kind = t'.kind := by rw [← kindOf_text ht, h, kindOf_text ht']
  have hnames : ∀ t ∈ names, ∀ t' ∈ names, t.text = t'.text → t = t' := by decide +kernel
  have hname (hk : t.kind = .name) : t = t' :=
    hnames t (mem_names ht hk) t' (mem_names ht' (hkind ▸ hk)) h
  cases t with
  | register r width => exact hname rfl
  | segment s => exact hname rfl
  | number n =>
      cases t' with
      | number n' => rw [UInt16.toNat_inj.mp (Numeral.hexadecimal_inj.mp h)]
      | _ => cases hkind
  | distance d =>
      cases t' with
      | distance d' => rw [Int16.toInt_inj.mp (Numeral.signedHexadecimal_inj.mp h)]
      | _ => cases hkind
  | pointer s offset =>
      cases t' with
      | pointer s' offset' => exact pointer_text_inj h
      | _ => cases hkind
  | memory width s address =>
      cases t' with
      | memory width' s' address' => exact memory_text_inj ht ht' h
      | _ => cases hkind

end WrittenOperand

end Iapx86
