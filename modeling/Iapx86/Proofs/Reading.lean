import Iapx86.Proofs.OperandText
import Iapx86.Proofs.Readable

/-!
# Reading an instruction back

`Instruction.writtenOperands` is what is written after the name of an operation, and `Body.read` is
the way back: it supplies what was left out, finds source and destination by their places, and takes
width, registers, displacement and operand from the first of the written operands that has any. If
the instruction goes by the rules, this gives the instruction again
(`Instruction.read_writtenOperands`). Shifts are left out, since the register that counts their
places is written as one of bytes.
-/

namespace Iapx86

/-! ## What is written -/

namespace Instruction

/-- What is written for an operand. -/
def written (i : Instruction) : Operand → WrittenOperand
  | .immediate => .number i.operand
  | .directAddress => .memory i.width i.segmentOverride (.direct i.displacement)
  | .indirect => .memory i.width i.segmentOverride (.sum i.sib i.displacement)
  | .segment s => .segment s
  | .register r =>
      if r = .cx ∧ i.operation.isShift then .register .cx .byte
      else if r = .dx ∧ i.operation.isInputOutput then .register .dx .word
      else .register r i.width

/-- What is written for the operands of an operation that has them written in full. -/
def plainOperands (i : Instruction) : List WrittenOperand :=
  if i.operation.isSingleOperand then i.destination.toList.map i.written
  else
    i.destination.toList.map i.written ++ i.source.toList.map i.written ++
      if i.operation = .imul ∧ i.destination ≠ none then [.number i.operand] else []

/-- What is written where the operands are not: the values that the instruction gives. -/
def writtenValues (i : Instruction) : List WrittenOperand :=
  match i.operation with
  | .aam | .aad => [.number i.operand]
  | .enter => [.number i.displacement.toUInt16, .number i.operand]
  | _ => []

/-- What is written after the name of the operation, from the left. -/
def writtenOperands (i : Instruction) : List WrittenOperand :=
  if i.operation.isRelativeBranch then [.distance i.displacement]
  else match i.farTarget? with
    | some (segment, offset) => [.pointer segment offset]
    | none => if i.operation.unwritten?.isSome then i.writtenValues else i.plainOperands

theorem text_written (i : Instruction) (o : Operand) : (i.written o).text = i.operandText o := by
  cases o with
  | immediate | segment s | directAddress | indirect => rfl
  | register r =>
      rw [written, operandText]
      split
      · rfl
      · split <;> rfl

theorem map_text_plainOperands (i : Instruction) :
    i.plainOperands.map WrittenOperand.text =
      if i.operation.isSingleOperand then i.operandTexts? i.destination
      else if i.operation = .imul ∧ i.destination ≠ none then
        i.operandTexts? i.destination ++ i.operandTexts? i.source
          ++ [Numeral.hexadecimal i.operand.toNat]
      else i.operandTexts? i.destination ++ i.operandTexts? i.source := by
  have htexts (o : Option Operand) :
      (o.toList.map i.written).map WrittenOperand.text = i.operandTexts? o := by
    cases o with
    | none => rfl
    | some o => exact congrArg (fun t => [t]) (i.text_written o)
  unfold plainOperands
  split
  · exact htexts _
  · split
    · rw [List.map_append, List.map_append, htexts, htexts]
      rfl
    · rw [List.append_nil, List.map_append, htexts, htexts]

theorem operandTexts_eq (i : Instruction) :
    i.operandTexts = i.writtenOperands.map WrittenOperand.text := by
  unfold operandTexts writtenOperands
  split
  · rfl
  · cases i.farTarget? with
    | some target => rfl
    | none =>
        dsimp only
        split
        case h_10 =>
          have hplain : i.operation.unwritten? = none := by
            unfold Operation.unwritten?
            split <;> first | rfl | simp_all
          rw [hplain]
          exact i.map_text_plainOperands.symm
        all_goals
          next hoperation =>
            rw [writtenValues, hoperation]
            rfl

end Instruction

/-! ## What is read -/

namespace WrittenOperand

/-- The operand that is written. -/
def operand? : WrittenOperand → Option Operand
  | number _ | pointer _ _ => some .immediate
  | distance _ => none
  | register r _ => some (.register r)
  | segment s => some (.segment s)
  | memory _ _ (.direct _) => some .directAddress
  | memory _ _ (.sum _ _) => some .indirect

/-- The width that is shown. -/
def width? (operation : Operation) : WrittenOperand → Option Width
  | register r width => if r = .dx ∧ operation.isInputOutput then none else some width
  | segment _ => some .word
  | memory width _ _ => some width
  | number _ | distance _ | pointer _ _ => none

def registers? : WrittenOperand → Option ScaleIndexBase
  | memory _ _ (.sum registers _) => some registers
  | _ => none

def displacement? : WrittenOperand → Option Int16
  | distance d | memory _ _ (.direct d) | memory _ _ (.sum _ d) => some d
  | pointer _ offset => some offset.toInt16
  | _ => none

def value? : WrittenOperand → Option UInt16
  | number n | pointer n _ => some n
  | _ => none

def segmentOverride? : WrittenOperand → Option (Option Segment)
  | memory _ s _ => some s
  | _ => none

end WrittenOperand

/-- Destination and source, from the operands that are written. -/
def Operation.slots (operation : Operation) : List Operand → Option Operand × Option Operand
  | [] => (none, none)
  | [o] =>
      if operation.isSingleOperand then (some o, some o)
      else if operation.hasOnlyDestination then (some o, none)
      else (none, some o)
  | o :: o' :: _ => (some o, some o')

namespace Body

/-- Puts in the values that are written without operands. -/
def withValues (b : Body) : List WrittenOperand → Body
  | [.number d, .number n] => { b with displacement := d.toInt16, operand := n }
  | [.number n] => { b with operand := n }
  | _ => b

/-- The instruction with the operation, from what is written for its operands. The name of an
operation on strings tells whether it is one on bytes. -/
def read (operation : Operation) (onBytes : Bool) (ts : List WrittenOperand) : Body :=
  match operation.unwritten? with
  | some b => b.withValues ts
  | none =>
      let (destination, source) := operation.slots (ts.filterMap (·.operand?))
      let unspoken :=
        if operation.isString then if onBytes then .byte else .word
        else operation.unspokenWidth source
      { operation, source, destination
        width := (ts.findSome? (·.width? operation)).getD unspoken
        sib := (ts.findSome? (·.registers?)).getD {}
        displacement := (ts.findSome? (·.displacement?)).getD 0
        operand := (ts.findSome? (·.value?)).getD 0 }

/-- An operation on strings of bytes. -/
def isOnByteStrings (b : Body) : Bool := b.operation.isString && b.width = .byte

/-- The width where none is shown. -/
def unspokenWidth (b : Body) : Width :=
  if b.operation.isString then if b.isOnByteStrings then .byte else .word
  else b.operation.unspokenWidth b.source

theorem IsReadable.unspokenWidth_eq {b : Body} (h : b.IsReadable)
    (hhidden : ∀ o ∈ b.operands, o.showsWidth b.operation = false) : b.unspokenWidth = b.width := by
  unfold unspokenWidth isOnByteStrings
  split
  · next hstring =>
      rcases h.stringWidth hstring with hwidth | hwidth <;> simp [hstring, hwidth]
  · next hstring => exact (h.width (Bool.eq_false_iff.mpr hstring) hhidden).symm

theorem read_eq {b : Body} {ts : List WrittenOperand} (hwritten : b.operation.unwritten? = none)
    (hslots : b.operation.slots (ts.filterMap (·.operand?)) = (b.destination, b.source))
    (hwidth : (ts.findSome? (·.width? b.operation)).getD b.unspokenWidth = b.width)
    (hsib : (ts.findSome? (·.registers?)).getD {} = b.sib)
    (hdisplacement : (ts.findSome? (·.displacement?)).getD 0 = b.displacement)
    (hoperand : (ts.findSome? (·.value?)).getD 0 = b.operand) :
    read b.operation b.isOnByteStrings ts = b := by
  rw [unspokenWidth] at hwidth
  rw [read, hwritten]
  dsimp only
  rw [hslots]
  dsimp only
  rw [hwidth, hsib, hdisplacement, hoperand]

end Body

/-- What all say that say anything is said by the first that does. -/
theorem getD_findSome?_eq {α β : Type} {f : α → Option β} {l : List α} {v unspoken : β}
    (h : ∀ a ∈ l, ∀ w ∈ f a, w = v) (hunspoken : (∀ a ∈ l, f a = none) → unspoken = v) :
    (l.findSome? f).getD unspoken = v := by
  cases hfind : l.findSome? f with
  | none => exact hunspoken (List.findSome?_eq_none_iff.mp hfind)
  | some w =>
      obtain ⟨a, ha, hw⟩ := List.exists_of_findSome?_eq_some hfind
      exact h a ha w hw

namespace Instruction

variable {i : Instruction}

/-! ### One operand -/

theorem exists_written_register (i : Instruction) (r : Register) :
    ∃ width, i.written (.register r) = .register r width := by
  rw [written]
  split
  · next h => exact ⟨.byte, by rw [h.1]⟩
  · split
    · next h => exact ⟨.word, by rw [h.1]⟩
    · exact ⟨i.width, rfl⟩

theorem operand?_written (i : Instruction) (o : Operand) : (i.written o).operand? = some o := by
  cases o with
  | immediate | segment s | directAddress | indirect => rfl
  | register r =>
      obtain ⟨width, h⟩ := i.exists_written_register r
      rw [h]
      rfl

theorem width?_written (hshift : i.operation.isShift = false) {o : Operand}
    (hfits : o.Fits i.width) :
    (i.written o).width? i.operation =
      if o.showsWidth i.operation then some i.width else none := by
  cases o with
  | immediate | directAddress | indirect => rfl
  | segment s => exact congrArg some hfits.symm
  | register r =>
      rw [written, if_neg (by simp [hshift])]
      by_cases hport : r = .dx ∧ i.operation.isInputOutput = true
      · simp [Operand.showsWidth, WrittenOperand.width?, hport.1, hport.2]
      · have hshows : (Operand.register r).showsWidth i.operation = true := by
          simpa [Operand.showsWidth, imp_iff_not_or] using hport
        rw [if_neg hport, if_pos hshows]
        exact if_neg hport

theorem registers?_written (i : Instruction) (o : Operand) :
    (i.written o).registers? = if o = .indirect then some i.sib else none := by
  cases o with
  | immediate | segment s | directAddress | indirect => rfl
  | register r =>
      obtain ⟨width, h⟩ := i.exists_written_register r
      rw [h]
      rfl

theorem displacement?_written (i : Instruction) (o : Operand) :
    (i.written o).displacement? = if o.isMemory then some i.displacement else none := by
  cases o with
  | immediate | segment s | directAddress | indirect => rfl
  | register r =>
      obtain ⟨width, h⟩ := i.exists_written_register r
      rw [h]
      rfl

theorem value?_written (i : Instruction) (o : Operand) :
    (i.written o).value? = if o = .immediate then some i.operand else none := by
  cases o with
  | immediate | segment s | directAddress | indirect => rfl
  | register r =>
      obtain ⟨width, h⟩ := i.exists_written_register r
      rw [h]
      rfl

theorem segmentOverride?_written (i : Instruction) (o : Operand) :
    (i.written o).segmentOverride? = if o.isMemory then some i.segmentOverride else none := by
  cases o with
  | immediate | segment s | directAddress | indirect => rfl
  | register r =>
      obtain ⟨width, h⟩ := i.exists_written_register r
      rw [h]
      rfl

theorem distance_ne_written (i : Instruction) (d : Int16) (o : Operand) :
    .distance d ≠ i.written o := by
  intro h
  have hoperand := i.operand?_written o
  rw [← h] at hoperand
  cases hoperand

/-! ### Operands in full -/

theorem mem_plainOperands (hwell : i.toBody.WellFormed) {t : WrittenOperand} :
    t ∈ i.plainOperands ↔
      (∃ o ∈ i.operands, i.written o = t) ∨
        (i.operation = .imul ∧ i.destination.isSome) ∧ t = .number i.operand := by
  have hslot (o : Operand) : o ∈ i.operands ↔ i.source = some o ∨ i.destination = some o :=
    Body.mem_operands
  unfold plainOperands
  split
  · next hsingle =>
      have heq : i.source = i.destination := (hwell.singleOperand hsingle).1
      have himul : i.operation ≠ .imul := by
        rintro himul
        rw [himul] at hsingle
        cases hsingle
      simp [hslot, heq, himul]
  · simp only [List.mem_append, List.mem_map, Option.mem_toList, hslot,
      ← Option.isSome_iff_ne_none]
    split <;> simp_all [or_and_right, exists_or, or_comm]

theorem slots_plainOperands (hwell : i.toBody.WellFormed) (hreadable : i.toBody.IsReadable) :
    i.operation.slots (i.plainOperands.filterMap (·.operand?)) = (i.destination, i.source) := by
  unfold plainOperands
  split
  · next hsingle =>
      obtain ⟨heq, hsome, -⟩ := hwell.singleOperand hsingle
      obtain ⟨o, ho⟩ := Option.ne_none_iff_exists'.mp hsome
      rw [← heq, ho]
      simp [operand?_written, Operation.slots, hsingle]
  · next hsingle =>
      cases hd : i.destination with
      | none =>
          cases hs : i.source with
          | none => simp [Operation.slots]
          | some s =>
              have hslot : ¬ i.operation.hasOnlyDestination = true := fun hslot =>
                absurd (hs.symm.trans (hreadable.onlyDestination hslot)) (Option.some_ne_none s)
              simp [operand?_written, Operation.slots, hsingle, hslot]
      | some d =>
          cases hs : i.source with
          | none =>
              have hslot : i.operation.hasOnlyDestination = true := by
                rw [← Bool.not_eq_false]
                intro hslot
                exact absurd (hd.symm.trans (hreadable.onlySource hslot hs)) (Option.some_ne_none d)
              have himul : i.operation ≠ .imul := by
                rintro himul
                rw [himul] at hslot
                cases hslot
              simp [operand?_written, Operation.slots, hsingle, hslot, himul]
          | some s => simp [operand?_written, Operation.slots]

/-- What the operands show of a field, and the value that is written last where there is one, is
read; where none does, the field has to be what goes without saying. -/
theorem getD_findSome?_plainOperands (hwell : i.toBody.WellFormed) {β : Type}
    {f : WrittenOperand → Option β} {v unspoken : β} {shows : Operand → Prop} [DecidablePred shows]
    (hwritten : ∀ o ∈ i.operands, f (i.written o) = if shows o then some v else none)
    (hvalue : ∀ w ∈ f (.number i.operand), w = v)
    (hunspoken : (∀ o ∈ i.operands, ¬ shows o) →
      (i.operation = .imul ∧ i.destination.isSome → f (.number i.operand) = none) → unspoken = v) :
    (i.plainOperands.findSome? f).getD unspoken = v := by
  refine getD_findSome?_eq (fun t ht w hw => ?_) fun hnone => hunspoken (fun o ho hshows => ?_) ?_
  · rcases (mem_plainOperands hwell).mp ht with ⟨o, ho, rfl⟩ | ⟨-, rfl⟩
    · rw [hwritten o ho] at hw
      split at hw <;> cases hw
      rfl
    · exact hvalue w hw
  · have hhidden := hnone _ ((mem_plainOperands hwell).mpr (.inl ⟨o, ho, rfl⟩))
    rw [hwritten o ho, if_pos hshows] at hhidden
    cases hhidden
  · intro himul
    exact hnone _ ((mem_plainOperands hwell).mpr (.inr ⟨himul, rfl⟩))

theorem read_plainOperands (hwell : i.toBody.WellFormed) (hreadable : i.toBody.IsReadable)
    (hshift : i.operation.isShift = false) (hwritten : i.operation.unwritten? = none)
    (hbranch : i.operation.isRelativeBranch = false) (hfar : i.farTarget? = none) :
    Body.read i.operation i.isOnByteStrings i.plainOperands = i.toBody := by
  refine Body.read_eq hwritten (slots_plainOperands hwell hreadable) ?width ?sib ?displacement
    ?operand
  case width =>
    refine getD_findSome?_plainOperands hwell
      (fun o ho => width?_written hshift (hwell.fits o ho)) nofun fun hhidden _ => ?_
    exact hreadable.unspokenWidth_eq fun o ho => Bool.eq_false_iff.mpr (hhidden o ho)
  case sib =>
    refine getD_findSome?_plainOperands hwell (fun o _ => i.registers?_written o) nofun
      fun hhidden _ => ?_
    by_contra hne
    exact hhidden _ (hwell.sib_ne_iff.mp (Ne.symm hne)) rfl
  case displacement =>
    refine getD_findSome?_plainOperands hwell (fun o _ => i.displacement?_written o) nofun
      fun hhidden _ => ?_
    by_contra hne
    rcases hwell.displacement (Ne.symm hne) with ⟨o, ho, hmemory⟩ | hbranch' | hfar' | henter
    · exact hhidden o ho hmemory
    · rw [hbranch] at hbranch'
      cases hbranch'
    · rw [hfar] at hfar'
      cases hfar'
    · rw [henter] at hwritten
      cases hwritten
  case operand =>
    have hvalue : ∀ n ∈ (WrittenOperand.number i.operand).value?, n = i.operand :=
      fun n hn => (Option.some.inj hn).symm
    refine getD_findSome?_plainOperands hwell (fun o _ => i.value?_written o) hvalue
      fun hhidden himul => ?_
    by_contra hne
    rcases hwell.operand (Ne.symm hne) with himmediate | htakes
    · exact hhidden _ himmediate rfl
    · cases himul htakes

/-! ### Distances, pointers and values -/

theorem unwritten?_of_isRelativeBranch {operation : Operation}
    (h : operation.isRelativeBranch = true) : operation.unwritten? = none := by
  cases operation <;> first | rfl | cases h

theorem unwritten?_of_isFar {operation : Operation} (h : operation.isFar = true) :
    operation.unwritten? = none := by
  cases operation <;> first | rfl | cases h

theorem read_distance (hwell : i.toBody.WellFormed) (hreadable : i.toBody.IsReadable)
    (hbranch : i.operation.isRelativeBranch = true) :
    Body.read i.operation i.isOnByteStrings [.distance i.displacement] = i.toBody := by
  obtain ⟨hnone, -, hoperand⟩ := hwell.relativeBranch hbranch
  have hslots : i.source = none ∧ i.destination = none := by
    simpa [Body.operands] using hnone
  have hsib : i.sib = {} := by
    by_contra hne
    have hindirect := hwell.sib_ne_iff.mp hne
    rw [hnone] at hindirect
    cases hindirect
  refine Body.read_eq (unwritten?_of_isRelativeBranch hbranch) ?_ ?_ hsib.symm rfl hoperand.symm
  · rw [hslots.1, hslots.2]
    rfl
  · refine hreadable.unspokenWidth_eq fun o ho => ?_
    rw [hnone] at ho
    cases ho

theorem read_pointer (hwell : i.toBody.WellFormed) (hreadable : i.toBody.IsReadable)
    {segment offset : UInt16} (htarget : i.farTarget? = some (segment, offset)) :
    Body.read i.operation i.isOnByteStrings [.pointer segment offset] = i.toBody := by
  obtain ⟨hoperation, hsource⟩ := Body.isSome_farTarget?_iff.mp (Option.isSome_of_eq_some htarget)
  rw [Body.farTarget?, if_pos ⟨hoperation, hsource⟩] at htarget
  cases htarget
  have hfar : i.operation.isFar = true := by
    rcases hoperation with h | h <;> rw [h] <;> rfl
  have hdestination := hreadable.far hfar
  have himmediate : i.operands = [.immediate] := by
    rw [Body.operands, hsource, hdestination]
    rfl
  have hsib : i.sib = {} := by
    by_contra hne
    have hindirect := hwell.sib_ne_iff.mp hne
    rw [himmediate] at hindirect
    exact absurd hindirect (by decide)
  refine Body.read_eq (unwritten?_of_isFar hfar) ?_ ?_ hsib.symm i.displacement.toInt16_toUInt16 rfl
  · rw [hsource, hdestination]
    rcases hoperation with h | h <;> rw [h] <;> rfl
  · refine hreadable.unspokenWidth_eq fun o ho => ?_
    rw [himmediate, List.mem_singleton] at ho
    rw [ho]
    rfl

theorem read_writtenValues (hwell : i.toBody.WellFormed) (hreadable : i.toBody.IsReadable)
    (hwritten : i.operation.unwritten?.isSome) :
    Body.read i.operation i.isOnByteStrings i.writtenValues = i.toBody := by
  obtain ⟨u, hu⟩ := Option.isSome_iff_exists.mp hwritten
  have hbody := hreadable.unwritten u hu
  have hdisplacement (hu : ¬ u.TakesDisplacement) : i.displacement = 0 := by
    by_contra hne
    have htakes := hwell.displacement hne
    rw [hbody, Body.takesDisplacement_withFields] at htakes
    exact hu htakes
  have hoperand (hu : ¬ u.TakesOperand) : i.operand = 0 := by
    by_contra hne
    have htakes := hwell.operand hne
    rw [hbody] at htakes
    exact hu htakes
  rw [Body.read, hu, writtenValues]
  refine Eq.trans ?_ hbody.symm
  unfold Operation.unwritten? at hu
  split at hu
  case h_7 | h_8 =>
    next hoperation =>
      rw [hoperation] at hu ⊢
      cases hu
      rw [hdisplacement (by decide)]
      rfl
  case h_9 =>
    next hoperation =>
      rw [hoperation] at hu ⊢
      cases hu
      dsimp only [Body.withValues]
      rw [i.displacement.toInt16_toUInt16]
  case h_10 => cases hu
  all_goals
    next hoperation =>
      rw [hoperation] at hu ⊢
      cases hu
      rw [hdisplacement (by decide), hoperand (by decide)]
      rfl

/-- What is written for the operands of an instruction says what it is, once the operation is
known. -/
theorem read_writtenOperands (hwell : i.toBody.WellFormed) (hreadable : i.toBody.IsReadable)
    (hshift : i.operation.isShift = false) :
    Body.read i.operation i.isOnByteStrings i.writtenOperands = i.toBody := by
  unfold writtenOperands
  split
  · next hbranch => exact read_distance hwell hreadable hbranch
  · next hbranch =>
      cases hfar : i.farTarget? with
      | some target => exact read_pointer hwell hreadable hfar
      | none =>
          dsimp only
          split
          · next hwritten => exact read_writtenValues hwell hreadable hwritten
          · next hwritten =>
              exact read_plainOperands hwell hreadable hshift (by simpa using hwritten)
                (Bool.eq_false_iff.mpr hbranch) hfar

/-! ### Beside the body -/

theorem isMemory_of_unwritten? {operation : Operation} {u : Body}
    (hu : operation.unwritten? = some u) : ∀ o ∈ u.operands, o.isMemory = false := by
  unfold Operation.unwritten? at hu
  split at hu
  all_goals cases hu <;> decide

theorem mem_writtenOperands (hwell : i.toBody.WellFormed) {t : WrittenOperand}
    (ht : t ∈ i.writtenOperands) :
    (i.operation.isRelativeBranch = true ∧ t = .distance i.displacement) ∨
      (∃ s offset, t = .pointer s offset) ∨ (∃ n, t = .number n) ∨
        ∃ o ∈ i.operands, i.written o = t := by
  unfold writtenOperands at ht
  split at ht
  · next hbranch => exact .inl ⟨hbranch, List.mem_singleton.mp ht⟩
  · split at ht
    · exact .inr (.inl ⟨_, _, List.mem_singleton.mp ht⟩)
    · split at ht
      · unfold writtenValues at ht
        split at ht
        · exact .inr (.inr (.inl ⟨_, List.mem_singleton.mp ht⟩))
        · exact .inr (.inr (.inl ⟨_, List.mem_singleton.mp ht⟩))
        · rcases List.mem_cons.mp ht with h | h
          · exact .inr (.inr (.inl ⟨_, h⟩))
          · exact .inr (.inr (.inl ⟨_, List.mem_singleton.mp h⟩))
        · cases ht
      · rcases (mem_plainOperands hwell).mp ht with h | ⟨-, h⟩
        · exact .inr (.inr (.inr h))
        · exact .inr (.inr (.inl ⟨_, h⟩))

/-- With an operand in memory, the operands are written in full. -/
theorem writtenOperands_of_isMemory (hwell : i.toBody.WellFormed) (hreadable : i.toBody.IsReadable)
    {o : Operand} (ho : o ∈ i.operands) (hmemory : o.isMemory = true) :
    i.writtenOperands = i.plainOperands := by
  have hbranch : ¬ i.operation.isRelativeBranch = true := by
    intro hbranch
    rw [(hwell.relativeBranch hbranch).1] at ho
    cases ho
  have hwritten : ¬ i.operation.unwritten?.isSome = true := by
    intro hwritten
    obtain ⟨u, hu⟩ := Option.isSome_iff_exists.mp hwritten
    have hou : o ∈ u.operands := by
      rw [hreadable.unwritten u hu] at ho
      exact ho
    rw [isMemory_of_unwritten? hu o hou] at hmemory
    cases hmemory
  have hfar : i.farTarget? = none := by
    rw [← Option.not_isSome_iff_eq_none, Body.isSome_farTarget?_iff]
    rintro ⟨hoperation, hsource⟩
    have hdestination : i.destination = none :=
      hreadable.far (by rcases hoperation with h | h <;> rw [h] <;> rfl)
    rcases Body.mem_operands.mp ho with h | h
    · cases hsource.symm.trans h
      cases hmemory
    · cases hdestination.symm.trans h
  rw [writtenOperands, if_neg hbranch, hfar]
  exact if_neg hwritten

/-- The segment is written with an operand in memory. -/
theorem segmentOverride_eq (hwell : i.toBody.WellFormed) (hreadable : i.toBody.IsReadable)
    (hmemory : ∃ o ∈ i.operands, o.isMemory) :
    (i.writtenOperands.findSome? (·.segmentOverride?)).getD none = i.segmentOverride := by
  obtain ⟨o, ho, hmemory⟩ := hmemory
  rw [writtenOperands_of_isMemory hwell hreadable ho hmemory]
  exact getD_findSome?_plainOperands hwell (fun o _ => i.segmentOverride?_written o) nofun
    fun hhidden _ => absurd hmemory (hhidden o ho)

theorem isLegible_written (hwell : i.toBody.WellFormed) (hreadable : i.toBody.IsReadable)
    {o : Operand} (ho : o ∈ i.operands) : (i.written o).IsLegible := by
  cases o with
  | immediate | segment s | directAddress => trivial
  | indirect =>
      exact hreadable.registers.resolve_left (hwell.sib_ne_iff.mpr ho)
  | register r =>
      rw [written]
      split
      · change Register.cx ∈ Register.ofWidth .byte
        decide
      · split
        · change Register.dx ∈ Register.ofWidth .word
          decide
        · exact hwell.fits _ ho

theorem isLegible_of_mem_writtenOperands (hwell : i.toBody.WellFormed)
    (hreadable : i.toBody.IsReadable) {t : WrittenOperand} (ht : t ∈ i.writtenOperands) :
    t.IsLegible := by
  rcases mem_writtenOperands hwell ht with ⟨-, rfl⟩ | ⟨s, offset, rfl⟩ | ⟨n, rfl⟩ | ⟨o, ho, rfl⟩
  · trivial
  · trivial
  · trivial
  · exact isLegible_written hwell hreadable ho

/-- Only branches are written with a distance. -/
theorem isRelativeBranch_iff (hwell : i.toBody.WellFormed) :
    i.operation.isRelativeBranch = true ↔ ∃ d, .distance d ∈ i.writtenOperands := by
  constructor
  · intro hbranch
    rw [writtenOperands, if_pos hbranch]
    exact ⟨_, List.mem_singleton_self _⟩
  · rintro ⟨d, hd⟩
    rcases mem_writtenOperands hwell hd with ⟨hbranch, -⟩ | ⟨s, offset, h⟩ | ⟨n, h⟩ | ⟨o, -, h⟩
    · exact hbranch
    · cases h
    · cases h
    · exact absurd h.symm (distance_ne_written i d o)

/-- What is written depends on the body, and on the segment only if there is memory to address. -/
theorem writtenOperands_congr {i i' : Instruction} (hbody : i.toBody = i'.toBody)
    (hsegment : (∃ o ∈ i.operands, o.isMemory) → i.segmentOverride = i'.segmentOverride) :
    i.writtenOperands = i'.writtenOperands := by
  obtain ⟨p, b⟩ := i
  obtain ⟨p', b'⟩ := i'
  cases hbody
  have hwritten (o : Operand) (ho : o ∈ b.operands) :
      (Instruction.mk p b).written o = (Instruction.mk p' b).written o := by
    cases o with
    | immediate | segment s | register r => rfl
    | directAddress | indirect =>
        have hs : p.segmentOverride = p'.segmentOverride := hsegment ⟨_, ho, rfl⟩
        simp only [written]
        rw [hs]
  have hplain : (Instruction.mk p b).plainOperands = (Instruction.mk p' b).plainOperands := by
    have hdestination : b.destination.toList.map (Instruction.mk p b).written =
        b.destination.toList.map (Instruction.mk p' b).written :=
      List.map_congr_left fun o ho =>
        hwritten o (Body.mem_operands.mpr (.inr (Option.mem_toList.mp ho)))
    have hsource : b.source.toList.map (Instruction.mk p b).written =
        b.source.toList.map (Instruction.mk p' b).written :=
      List.map_congr_left fun o ho =>
        hwritten o (Body.mem_operands.mpr (.inl (Option.mem_toList.mp ho)))
    unfold plainOperands
    dsimp only
    rw [hdestination, hsource]
  unfold writtenOperands
  dsimp only
  rw [hplain]
  rfl

end Instruction

end Iapx86
