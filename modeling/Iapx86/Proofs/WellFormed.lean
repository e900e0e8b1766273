import Iapx86.Proofs.Addressing
import Iapx86.Proofs.Session
import Mathlib.Tactic.MkIffOfInductiveProp

/-!
# Instructions are well formed

The fields of an instruction come from different bytes, and whoever works with instructions relies
on them to go together: `Body.WellFormed` says how. A body and the layout of its trailing bytes
suit each other if whatever is read into displacement and operand leaves the body well formed
(`Body.Suits`). This is so of all bodies in the opcode map (`isSuited_primary`) and of all that come
of an addressing byte (`ModRm.suits_of_resolve?`), so a decoder never holds anything else
(`Decoder.isSuited_step`), and no instruction that it completes is ill formed
(`Decoder.wellFormed_of_decode_complete`).
-/

namespace Iapx86

/-! ## Well-formed bodies -/

/-- The registers that an operation of the given width works on. -/
def Register.ofWidth : Width → List Register
  | .byte => bytes
  | .word => words
  | .implied | .dword => []

/-- If the operand is a register, it fits the width. -/
def Operand.Fits (width : Width) : Operand → Prop
  | register r => r ∈ Register.ofWidth width
  | segment _ => width = .word
  | immediate | directAddress | indirect => True

instance (width : Width) : (o : Operand) → Decidable (o.Fits width)
  | .register _ => inferInstanceAs (Decidable (_ ∈ _))
  | .segment _ => inferInstanceAs (Decidable (_ = _))
  | .immediate | .directAddress | .indirect => .isTrue trivial

theorem Operand.fits_of_isMemory {o : Operand} (h : o.isMemory = true) (width : Width) :
    o.Fits width := by
  cases o with
  | register r => cases h
  | segment s => cases h
  | immediate | directAddress | indirect => trivial

namespace Body

def operands (b : Body) : List Operand := b.source.toList ++ b.destination.toList

theorem mem_operands {b : Body} {o : Operand} :
    o ∈ b.operands ↔ b.source = some o ∨ b.destination = some o := by
  simp [operands]

/-- A displacement means something: it belongs to an address in memory, it is the distance of a
branch or the offset of a far pointer, or it is the size of a frame. -/
def TakesDisplacement (b : Body) : Prop :=
  (∃ o ∈ b.operands, o.isMemory) ∨ b.operation.isRelativeBranch ∨ b.farTarget?.isSome ∨
    b.operation = .enter

/-- An immediate value means something. The multiplication that takes one has two other operands. -/
def TakesOperand (b : Body) : Prop :=
  .immediate ∈ b.operands ∨ b.operation = .imul ∧ b.destination.isSome

instance (b : Body) : Decidable b.TakesDisplacement := inferInstanceAs (Decidable (_ ∨ _))

instance (b : Body) : Decidable b.TakesOperand := inferInstanceAs (Decidable (_ ∨ _))

/-- The fields go together. -/
@[mk_iff]
structure WellFormed (b : Body) : Prop where
  memory : ∀ s ∈ b.source, ∀ t ∈ b.destination, s.isMemory → t.isMemory →
    s = t ∧ b.operation.isSingleOperand
  singleOperand : b.operation.isSingleOperand →
    b.source = b.destination ∧ b.source ≠ none ∧ b.source ≠ some .immediate
  sib_ne_iff : b.sib ≠ {} ↔ .indirect ∈ b.operands
  scale : b.sib.scale = 0
  address : .indirect ∈ b.operands → .directAddress ∉ b.operands
  displacement : b.displacement ≠ 0 → b.TakesDisplacement
  operand : b.operand ≠ 0 → b.TakesOperand
  fits : ∀ o ∈ b.operands, o.Fits b.width
  relativeBranch : b.operation.isRelativeBranch →
    b.operands = [] ∧ b.width = .implied ∧ b.operand = 0

instance (b : Body) : Decidable b.WellFormed := decidable_of_iff' _ (wellFormed_iff b)

/-- Whatever the trailing bytes are, the body is well formed with them. -/
@[mk_iff]
structure Suits (layout : TrailingLayout) (b : Body) : Prop where
  wellFormed : b.WellFormed
  displacement : layout.displacement ≠ .absent ∨ layout.operand = .farPointer → b.TakesDisplacement
  operand : layout.operand ≠ .absent → b.TakesOperand

instance (layout : TrailingLayout) (b : Body) : Decidable (b.Suits layout) :=
  decidable_of_iff' _ (suits_iff layout b)

variable {b : Body}

theorem isSome_farTarget?_iff : b.farTarget?.isSome ↔
    (b.operation = .callFar ∨ b.operation = .jmpFar) ∧ b.source = some .immediate := by
  simp [farTarget?]

theorem takesDisplacement_withFields (displacement : Int16) (operand : UInt16) :
    { b with displacement, operand }.TakesDisplacement ↔ b.TakesDisplacement := by
  rw [TakesDisplacement, TakesDisplacement, isSome_farTarget?_iff, isSome_farTarget?_iff]
  rfl

theorem WellFormed.isRelativeBranch_of_takesOperand (h : b.WellFormed) (htakes : b.TakesOperand) :
    b.operation.isRelativeBranch = false := by
  rw [← Bool.not_eq_true]
  intro hbranch
  rcases htakes with himmediate | ⟨himul, -⟩
  · rw [(h.relativeBranch hbranch).1] at himmediate
    cases himmediate
  · rw [himul] at hbranch
    cases hbranch

theorem WellFormed.withFields (h : b.WellFormed) {displacement : Int16} {operand : UInt16}
    (hd : displacement = b.displacement ∨ b.TakesDisplacement)
    (ho : operand = b.operand ∨ b.TakesOperand) : { b with displacement, operand }.WellFormed := by
  refine { h with displacement := fun hne => ?_, operand := fun hne => ?_, relativeBranch := ?_ }
  · rw [takesDisplacement_withFields]
    exact hd.elim (fun heq => h.displacement (heq ▸ hne)) id
  · exact ho.elim (fun heq => h.operand (heq ▸ hne)) id
  · intro hbranch
    obtain ⟨hnone, hwidth, hzero⟩ := h.relativeBranch hbranch
    rcases ho with heq | htakes
    · exact ⟨hnone, hwidth, heq.trans hzero⟩
    · rw [h.isRelativeBranch_of_takesOperand htakes] at hbranch
      cases hbranch

theorem Suits.withTrailing {layout : TrailingLayout} (h : b.Suits layout) (r : TrailingRegister) :
    (b.withTrailing layout r).WellFormed := by
  obtain ⟨field, operandField⟩ := layout
  have hd (hne : field ≠ .absent) := h.displacement (.inl hne)
  have ho (hne : operandField ≠ .absent) := h.operand hne
  cases operandField with
  | absent =>
      cases field with
      | absent => exact h.wellFormed
      | byte | word => exact h.wellFormed.withFields (.inr (hd nofun)) (.inl rfl)
  | byte | word =>
      cases field with
      | absent => exact h.wellFormed.withFields (.inl rfl) (.inr (ho nofun))
      | byte | word => exact h.wellFormed.withFields (.inr (hd nofun)) (.inr (ho nofun))
  | farPointer => exact h.wellFormed.withFields (.inr (h.displacement (.inr rfl))) (.inr (ho nofun))

end Body

/-! ## The operand that an addressing byte names -/

/-- The operand and what it takes to address it go together, where data have this width. -/
@[mk_iff]
structure EffectiveOperand.Suits (width : Width) (e : EffectiveOperand) : Prop where
  sib_ne_iff : e.sib ≠ {} ↔ e.operand = some .indirect
  scale : e.sib.scale = 0
  displacement : e.displacement ≠ .absent → ∃ o ∈ e.operand, o.isMemory
  fits : ∀ o ∈ e.operand, o.Fits width
  ne_immediate : e.operand ≠ some .immediate
  isSome : width ≠ .implied → e.operand.isSome

instance (width : Width) (e : EffectiveOperand) : Decidable (e.Suits width) :=
  decidable_of_iff' _ (EffectiveOperand.suits_iff width e)

theorem ModRm.suits_effectiveOperand {m : ModRm} (hmode : m.mode < 4) (hrm : m.rm < 8)
    {width : Width} (hwidth : width ≠ .dword) : (m.effectiveOperand width).Suits width := by
  have htable : ∀ mode < 4, ∀ rm < 8, ∀ width ∈ [.implied, .byte, .word],
      (ModRm.effectiveOperand ⟨mode, 0, rm⟩ width).Suits width := by
    decide +kernel
  exact htable _ hmode _ hrm width (by cases width <;> simp at hwidth ⊢)

theorem ModRm.isMemory_effectiveOperand {m : ModRm} (hmode : m.mode < 4)
    (h : m.isRegister = false) {width : Width} {o : Operand}
    (ho : (m.effectiveOperand width).operand = some o) : o.isMemory = true := by
  have hmodes : m.mode = 0 ∨ m.mode = 1 ∨ m.mode = 2 := by
    have hne : m.mode ≠ 3 := of_decide_eq_false h
    omega
  rw [effectiveOperand] at ho
  rcases hmodes with h | h | h <;> simp only [h] at ho
  · split at ho <;> cases ho <;> rfl
  · cases ho
    rfl
  · cases ho
    rfl

/-! ## What stands beside it -/

/-- The other operand, if there is one: it is not in memory, and it fits the width. -/
def Beside (width : Width) (other : Option Operand) : Prop :=
  ∀ o ∈ other, o.isMemory = false ∧ o.Fits width

theorem beside_none (width : Width) : Beside width none := nofun

theorem beside_immediate (width : Width) : Beside width (some .immediate) := by
  rintro _ ⟨⟩
  exact ⟨rfl, trivial⟩

theorem beside_segment (s : Segment) : Beside .word (some (.segment s)) := by
  rintro _ ⟨⟩
  exact ⟨rfl, rfl⟩

theorem beside_cx {width : Width} (hwidth : width = .byte ∨ width = .word) :
    Beside width (some (.register .cx)) := by
  rintro _ ⟨⟩
  rcases hwidth with rfl | rfl <;> decide

theorem fits_ofIndex? {width : Width} (hwidth : width ≠ .dword) {i : Nat} {r : Register}
    (h : Register.ofIndex? width i = some r) : (Operand.register r).Fits width := by
  cases width with
  | implied => cases h
  | byte => exact List.mem_of_getElem? h
  | word => exact List.mem_of_getElem? h
  | dword => exact absurd rfl hwidth

theorem beside_register {width : Width} (hwidth : width ≠ .dword) (m : ModRm) :
    Beside width (ModRmForm.select?.register width m) := by
  intro o ho
  obtain ⟨r, hr, rfl⟩ := Option.map_eq_some_iff.mp ho
  exact ⟨rfl, fits_ofIndex? hwidth hr⟩

/-! ## Bodies with an addressing byte -/

/-- Neither of the operations with rules of their own for their operands. -/
def Operation.IsOrdinary (operation : Operation) : Prop :=
  operation.isSingleOperand = false ∧ operation.isRelativeBranch = false

instance (operation : Operation) : Decidable operation.IsOrdinary :=
  inferInstanceAs (Decidable (_ ∧ _))

namespace EffectiveOperand.Suits

variable {e : EffectiveOperand} {width : Width} {operation : Operation} {other : Option Operand}

/-- The operand that an addressing byte names does no harm if it is the only one in memory. -/
theorem suits {b : Body} {field : OperandField} (he : e.Suits width) (hsib : b.sib = e.sib)
    (hplace : ∀ o ∈ e.operand, o ∈ b.operands)
    (hother : ∀ o ∈ b.operands, e.operand = some o ∨ o.isMemory = false)
    (hfits : ∀ o ∈ b.operands, o.Fits b.width)
    (hmemory : ∀ s ∈ b.source, ∀ t ∈ b.destination, s.isMemory → t.isMemory →
      b.operation.isSingleOperand)
    (hsingle : b.operation.isSingleOperand →
      b.source = e.operand ∧ b.destination = e.operand ∧ width ≠ .implied)
    (hbranch : b.operation.isRelativeBranch = false) (hdisplacement : b.displacement = 0)
    (hfar : field ≠ .farPointer) (hoperand : b.operand ≠ 0 ∨ field ≠ .absent → b.TakesOperand) :
    b.Suits { displacement := e.displacement, operand := field } := by
  have hnamed {o : Operand} (ho : o ∈ b.operands) (hmemory : o.isMemory = true) :
      e.operand = some o :=
    (hother o ho).resolve_right (ne_false_of_eq_true hmemory)
  have htakes (hne : e.displacement ≠ .absent) : b.TakesDisplacement := by
    obtain ⟨o, ho, hmemory⟩ := he.displacement hne
    exact .inl ⟨o, hplace o ho, hmemory⟩
  have hwell : b.WellFormed :=
    { memory := fun s hs t ht hsmem htmem => by
        have hs' := hnamed (Body.mem_operands.mpr (.inl hs)) hsmem
        have ht' := hnamed (Body.mem_operands.mpr (.inr ht)) htmem
        exact ⟨Option.some.inj (hs'.symm.trans ht'), hmemory s hs t ht hsmem htmem⟩
      singleOperand := fun h => by
        obtain ⟨hsource, hdestination, hwidth⟩ := hsingle h
        rw [hsource, hdestination]
        exact ⟨rfl, Option.isSome_iff_ne_none.mp (he.isSome hwidth), he.ne_immediate⟩
      sib_ne_iff := by
        rw [hsib, he.sib_ne_iff]
        exact ⟨fun h => hplace _ h, fun h => hnamed h rfl⟩
      scale := by rw [hsib, he.scale]
      address := fun hi hd => by
        have heq := (hnamed hi rfl).symm.trans (hnamed hd rfl)
        cases heq
      displacement := fun hne => absurd hdisplacement hne
      operand := fun hne => hoperand (.inl hne)
      fits := hfits
      relativeBranch := fun h => absurd h (ne_true_of_eq_false hbranch) }
  exact
    { wellFormed := hwell
      displacement := fun h => h.elim htakes (absurd · hfar)
      operand := fun hne => hoperand (.inr hne) }

theorem suits_to (he : e.Suits width) (hoperation : operation.IsOrdinary)
    (hother : Beside width other) {operand : UInt16} {field : OperandField}
    (hfar : field ≠ .farPointer)
    (hoperand : other = some .immediate ∨ operand = 0 ∧ field = .absent) :
    Body.Suits { displacement := e.displacement, operand := field }
      { operation, width, source := other, destination := e.operand, sib := e.sib, operand } := by
  refine he.suits rfl ?place ?other ?fits ?memory ?single hoperation.2 rfl hfar ?operand
  case place =>
    intro o ho
    exact Body.mem_operands.mpr (.inr ho)
  case other =>
    intro o ho
    exact (Body.mem_operands.mp ho).elim (fun h => .inr (hother o h).1) .inl
  case fits =>
    intro o ho
    exact (Body.mem_operands.mp ho).elim (fun h => (hother o h).2) (he.fits o)
  case memory =>
    intro s hs _ _ hmemory
    exact absurd hmemory (ne_true_of_eq_false (hother s hs).1)
  case single =>
    intro h
    exact absurd h (ne_true_of_eq_false hoperation.1)
  case operand =>
    intro h
    rcases hoperand with himmediate | ⟨rfl, rfl⟩
    · exact .inl (Body.mem_operands.mpr (.inl himmediate))
    · simp at h

theorem suits_to_other (he : e.Suits width) (hoperation : operation.IsOrdinary)
    (hother : Beside width other) :
    Body.Suits { displacement := e.displacement }
      { operation, width, source := other, destination := e.operand, sib := e.sib } :=
  he.suits_to hoperation hother OperandField.noConfusion (.inr ⟨rfl, rfl⟩)

theorem suits_to_immediate (he : e.Suits width) (hoperation : operation.IsOrdinary)
    (operand : UInt16) {field : OperandField} (hfar : field ≠ .farPointer) :
    Body.Suits { displacement := e.displacement, operand := field }
      { operation, width, source := some .immediate, destination := e.operand, sib := e.sib,
        operand } :=
  he.suits_to hoperation (beside_immediate width) hfar (.inl rfl)

theorem suits_from (he : e.Suits width) (hoperation : operation.IsOrdinary) {width' : Width}
    (hfits : ∀ o ∈ e.operand, o.Fits width') (hother : Beside width' other)
    {field : OperandField} (hfar : field ≠ .farPointer)
    (hoperand : field = .absent ∨ operation = .imul ∧ other.isSome) :
    Body.Suits { displacement := e.displacement, operand := field }
      { operation, width := width', source := e.operand, destination := other, sib := e.sib } := by
  refine he.suits rfl ?place ?other ?fits ?memory ?single hoperation.2 rfl hfar ?operand
  case place =>
    intro o ho
    exact Body.mem_operands.mpr (.inl ho)
  case other =>
    intro o ho
    exact (Body.mem_operands.mp ho).elim .inl (fun h => .inr (hother o h).1)
  case fits =>
    intro o ho
    exact (Body.mem_operands.mp ho).elim (hfits o) (fun h => (hother o h).2)
  case memory =>
    intro _ _ t ht _ hmemory
    exact absurd hmemory (ne_true_of_eq_false (hother t ht).1)
  case single =>
    intro h
    exact absurd h (ne_true_of_eq_false hoperation.1)
  case operand =>
    intro h
    exact .inr (hoperand.resolve_left (h.resolve_left (absurd rfl)))

theorem suits_from_other (he : e.Suits width) (hoperation : operation.IsOrdinary)
    (hother : Beside width other) :
    Body.Suits { displacement := e.displacement }
      { operation, width, source := e.operand, destination := other, sib := e.sib } :=
  he.suits_from hoperation he.fits hother OperandField.noConfusion (.inl rfl)

theorem suits_from_none (he : e.Suits width) (hoperation : operation.IsOrdinary) {width' : Width}
    (hfits : ∀ o ∈ e.operand, o.Fits width') :
    Body.Suits { displacement := e.displacement }
      { operation, width := width', source := e.operand, sib := e.sib } :=
  he.suits_from hoperation hfits (beside_none width') OperandField.noConfusion (.inl rfl)

theorem suits_both (he : e.Suits width) (hwidth : width ≠ .implied)
    (hsingle : operation.isSingleOperand = true) :
    Body.Suits { displacement := e.displacement }
      { operation, width, source := e.operand, destination := e.operand, sib := e.sib } := by
  have hbranch : operation.isRelativeBranch = false := by
    cases operation <;> first | rfl | cases hsingle
  have hfar : OperandField.absent ≠ .farPointer := nofun
  refine he.suits rfl ?place ?other ?fits ?memory ?single hbranch rfl hfar ?operand
  case place =>
    intro o ho
    exact Body.mem_operands.mpr (.inl ho)
  case other =>
    intro o ho
    exact .inl ((Body.mem_operands.mp ho).elim id id)
  case fits =>
    intro o ho
    exact he.fits o ((Body.mem_operands.mp ho).elim id id)
  case memory =>
    intro _ _ _ _ _ _
    exact hsingle
  case single =>
    intro _
    exact ⟨rfl, rfl, hwidth⟩
  case operand =>
    intro h
    exact absurd rfl (h.resolve_left (absurd rfl))

end EffectiveOperand.Suits

/-- The form is used with operations and widths that it makes well-formed bodies of. -/
def ModRmForm.Suits (width : Width) : ModRmForm → Prop
  | toMemory operation | toRegister operation | fromAddress operation =>
      operation.IsOrdinary ∧ (width = .byte ∨ width = .word)
  | toRegisterImmediate operation immediate =>
      operation = .imul ∧ width = .word ∧ immediate ≠ .farPointer
  | arithmetic immediate => (width = .byte ∨ width = .word) ∧ immediate ≠ .farPointer
  | shift _ | unary | incDec | movImmediate => width = .byte ∨ width = .word
  | toSegment | fromSegment | incToPush | pop | localDescriptor | globalDescriptor => width = .word
  | coprocessor => width = .implied

instance (width : Width) : (form : ModRmForm) → Decidable (form.Suits width)
  | .toMemory _ | .toRegister _ | .fromAddress _ | .toRegisterImmediate _ _ | .arithmetic _ =>
      inferInstanceAs (Decidable (_ ∧ _))
  | .shift _ | .unary | .incDec | .movImmediate => inferInstanceAs (Decidable (_ ∨ _))
  | .toSegment | .fromSegment | .incToPush | .pop | .localDescriptor | .globalDescriptor
  | .coprocessor => inferInstanceAs (Decidable (_ = _))

theorem isOrdinary_arithmeticGroup (reg : Nat) : (arithmeticGroup reg).IsOrdinary := by
  unfold arithmeticGroup
  split <;> decide

theorem isOrdinary_of_shiftGroup? {reg : Nat} {operation : Operation}
    (h : shiftGroup? reg = some operation) : operation.IsOrdinary := by
  unfold shiftGroup? at h
  split at h <;> cases h <;> decide

theorem isSingleOperand_of_localDescriptorGroup? {reg : Nat} {operation : Operation}
    (h : localDescriptorGroup? reg = some operation) : operation.isSingleOperand = true := by
  unfold localDescriptorGroup? at h
  split at h <;> cases h <;> rfl

theorem isSingleOperand_of_globalDescriptorGroup? {isRegister : Bool} {reg : Nat}
    {operation : Operation} (h : globalDescriptorGroup? isRegister reg = some operation) :
    operation.isSingleOperand = true := by
  unfold globalDescriptorGroup? at h
  repeat' split at h
  all_goals cases h <;> rfl

theorem ModRmForm.ne_dword_of_suits {form : ModRmForm} {width : Width} (h : form.Suits width) :
    width ≠ .dword := by
  rintro rfl
  cases form <;> simp [Suits] at h

namespace EffectiveOperand.Suits

variable {e : EffectiveOperand} {width : Width} {model : Model} {m : ModRm} {body : Body}
  {operand : OperandField}

theorem suits_of_unary (he : e.Suits width) (hwidth : width = .byte ∨ width = .word)
    (h : ModRmForm.unary.select? model width m e.operand = some (body, operand)) :
    { body with sib := e.sib }.Suits { displacement := e.displacement, operand } := by
  have hfar : OperandField.ofWidth width ≠ .farPointer := by
    rcases hwidth with rfl | rfl <;> exact OperandField.noConfusion
  have himplied : width ≠ .implied := by
    rcases hwidth with rfl | rfl <;> exact Width.noConfusion
  rw [ModRmForm.select?] at h
  split at h <;> cases h
  · exact he.suits_to_immediate ⟨rfl, rfl⟩ 0 hfar
  · exact he.suits_both himplied rfl
  · exact he.suits_both himplied rfl
  · exact he.suits_from_none ⟨rfl, rfl⟩ he.fits
  · exact he.suits_from_none ⟨rfl, rfl⟩ he.fits
  · exact he.suits_from_none ⟨rfl, rfl⟩ he.fits
  · exact he.suits_from_none ⟨rfl, rfl⟩ he.fits

theorem suits_of_incToPush (he : e.Suits .word)
    (hmemory : m.isRegister = false → ∀ o ∈ e.operand, o.isMemory)
    (h : ModRmForm.incToPush.select? model .word m e.operand = some (body, operand)) :
    { body with sib := e.sib }.Suits { displacement := e.displacement, operand } := by
  -- The far calls and jumps have a width of their own, which fits an address only.
  have hfits (haddress : ¬ m.isRegister = true) : ∀ o ∈ e.operand, o.Fits .dword :=
    fun o ho => Operand.fits_of_isMemory (hmemory (Bool.not_eq_true _ ▸ haddress) o ho) _
  have himplied : Width.word ≠ .implied := Width.noConfusion
  rw [ModRmForm.select?] at h
  split at h
  · cases h
    exact he.suits_both himplied rfl
  · cases h
    exact he.suits_both himplied rfl
  · cases h
    exact he.suits_from_none ⟨rfl, rfl⟩ he.fits
  · split at h
    · cases h
    · next haddress =>
        cases h
        exact he.suits_from_none ⟨rfl, rfl⟩ (hfits haddress)
  · cases h
    exact he.suits_from_none ⟨rfl, rfl⟩ he.fits
  · split at h
    · cases h
    · next haddress =>
        cases h
        exact he.suits_from_none ⟨rfl, rfl⟩ (hfits haddress)
  · cases h
    exact he.suits_from_none ⟨rfl, rfl⟩ he.fits
  · cases h

theorem suits_of_shift (he : e.Suits width) (hwidth : width = .byte ∨ width = .word)
    {count : ShiftCount}
    (h : (ModRmForm.shift count).select? model width m e.operand = some (body, operand)) :
    { body with sib := e.sib }.Suits { displacement := e.displacement, operand } := by
  obtain ⟨operation, hoperation, hs⟩ := Option.map_eq_some_iff.mp h
  have hordinary := isOrdinary_of_shiftGroup? hoperation
  cases count with
  | one =>
      cases hs
      exact he.suits_to_immediate hordinary 1 OperandField.noConfusion
  | immediate =>
      cases hs
      exact he.suits_to_immediate hordinary 0 OperandField.noConfusion
  | cl =>
      cases hs
      exact he.suits_to_other hordinary (beside_cx hwidth)

theorem suits_of_select? {form : ModRmForm} (he : e.Suits width) (hform : form.Suits width)
    (hreg : m.reg < 8) (hmemory : m.isRegister = false → ∀ o ∈ e.operand, o.isMemory)
    (h : form.select? model width m e.operand = some (body, operand)) :
    { body with sib := e.sib }.Suits { displacement := e.displacement, operand } := by
  have hregister := beside_register (ModRmForm.ne_dword_of_suits hform) m
  -- Each form puts the place into one slot or both, and what it puts beside it is not in memory.
  cases form with
  | toMemory operation =>
      cases h
      exact he.suits_to_other hform.1 hregister
  | toRegister operation =>
      cases h
      exact he.suits_from_other hform.1 hregister
  | fromAddress operation =>
      rw [ModRmForm.select?] at h
      split at h <;> cases h
      exact he.suits_from_other hform.1 hregister
  | toRegisterImmediate operation immediate =>
      obtain ⟨rfl, rfl, hfar⟩ := hform
      have hsome : (ModRmForm.select?.register .word m).isSome := by
        simpa [ModRmForm.select?.register, Register.ofIndex?, Register.words] using hreg
      cases h
      exact he.suits_from ⟨rfl, rfl⟩ he.fits hregister hfar (.inr ⟨rfl, hsome⟩)
  | toSegment =>
      obtain ⟨s, -, hs⟩ := Option.map_eq_some_iff.mp h
      cases hs
      cases hform
      exact he.suits_from_other ⟨rfl, rfl⟩ (beside_segment s)
  | fromSegment =>
      obtain ⟨s, -, hs⟩ := Option.map_eq_some_iff.mp h
      cases hs
      cases hform
      exact he.suits_to_other ⟨rfl, rfl⟩ (beside_segment s)
  | arithmetic immediate =>
      cases h
      exact he.suits_to_immediate (isOrdinary_arithmeticGroup _) 0 hform.2
  | shift count => exact he.suits_of_shift hform h
  | unary => exact he.suits_of_unary hform h
  | incDec =>
      have himplied : width ≠ .implied := by
        rcases hform with rfl | rfl <;> exact Width.noConfusion
      rw [ModRmForm.select?] at h
      split at h <;> cases h
      · exact he.suits_both himplied rfl
      · exact he.suits_both himplied rfl
  | incToPush =>
      cases hform
      exact he.suits_of_incToPush hmemory h
  | pop =>
      rw [ModRmForm.select?] at h
      split at h <;> cases h
      exact he.suits_to_other ⟨rfl, rfl⟩ (beside_none width)
  | movImmediate =>
      have hfar : OperandField.ofWidth width ≠ .farPointer := by
        rcases hform with rfl | rfl <;> exact OperandField.noConfusion
      rw [ModRmForm.select?] at h
      split at h <;> cases h
      exact he.suits_to_immediate ⟨rfl, rfl⟩ 0 hfar
  | coprocessor =>
      cases h
      exact he.suits_to_other ⟨rfl, rfl⟩ (beside_none width)
  | localDescriptor =>
      cases hform
      obtain ⟨operation, hoperation, hs⟩ := Option.map_eq_some_iff.mp h
      cases hs
      exact he.suits_both Width.noConfusion (isSingleOperand_of_localDescriptorGroup? hoperation)
  | globalDescriptor =>
      cases hform
      obtain ⟨operation, hoperation, hs⟩ := Option.map_eq_some_iff.mp h
      cases hs
      exact he.suits_both Width.noConfusion (isSingleOperand_of_globalDescriptorGroup? hoperation)

end EffectiveOperand.Suits

theorem ModRm.suits_of_resolve? {model : Model} {form : ModRmForm} {width : Width} {m : ModRm}
    (hform : form.Suits width) (hmode : m.mode < 4) (hreg : m.reg < 8) (hrm : m.rm < 8)
    {body : Body} {layout : TrailingLayout}
    (h : m.resolve? model form width = some (body, layout)) : body.Suits layout := by
  have he := suits_effectiveOperand hmode hrm (ModRmForm.ne_dword_of_suits hform)
  have hmemory (h : m.isRegister = false) :
      ∀ o ∈ (m.effectiveOperand width).operand, o.isMemory :=
    fun _ ho => isMemory_effectiveOperand hmode h ho
  obtain ⟨⟨selected, operand⟩, hselect, hbody⟩ := Option.map_eq_some_iff.mp h
  cases hbody
  exact he.suits_of_select? hform hreg hmemory hselect

/-! ## The opcode map -/

def OpcodeShape.IsSuited : OpcodeShape → Prop
  | fixed body layout => body.Suits layout
  | modRm form width => form.Suits width
  | undefined | prefixByte _ | escape => True

instance : (shape : OpcodeShape) → Decidable shape.IsSuited
  | .fixed body layout => inferInstanceAs (Decidable (body.Suits layout))
  | .modRm form width => inferInstanceAs (Decidable (form.Suits width))
  | .undefined | .prefixByte _ | .escape => .isTrue trivial

theorem isSuited_primary : ∀ byte, (OpcodeMap.primary byte).shape.IsSuited :=
  forall_byte (by decide +kernel)

theorem isSuited_secondary : ∀ byte, (OpcodeMap.secondary byte).shape.IsSuited :=
  forall_byte (by decide +kernel)

/-! ## From byte to byte -/

/-- What a decoder holds of the instruction in progress is well formed with any trailing bytes. -/
def Phase.IsSuited : Phase → Prop
  | modRm form width => form.Suits width
  | scaleIndexBase body layout | trailing body layout _ _ => body.Suits layout
  | opcode | secondary => True

def StepResult.IsSuited : StepResult → Prop
  | complete _ i => i.isUndefined = false → i.toBody.WellFormed
  | pending d => d.phase.IsSuited

namespace Decoder

variable {d : Decoder} {byte : UInt8}

theorem isSuited_refuse : d.refuse.IsSuited := nofun

theorem isSuited_awaitTrailing {body : Body} {layout : TrailingLayout} (h : body.Suits layout) :
    (d.awaitTrailing body layout).IsSuited := by
  unfold awaitTrailing
  split
  · exact fun _ => h.wellFormed
  · exact h

theorem isSuited_stepOpcode : (d.stepOpcode byte).IsSuited := by
  have hsuited := isSuited_primary byte
  unfold stepOpcode
  split
  · exact isSuited_refuse
  · cases hshape : (OpcodeMap.primary byte).shape with
    | undefined => exact isSuited_refuse
    | prefixByte p =>
        dsimp only
        split
        · exact isSuited_refuse
        · trivial
    | escape => trivial
    | fixed body layout =>
        rw [hshape] at hsuited
        exact isSuited_awaitTrailing hsuited
    | modRm form width =>
        rw [hshape] at hsuited
        exact hsuited

theorem isSuited_stepSecondary : (d.stepSecondary byte).IsSuited := by
  have hsuited := isSuited_secondary byte
  unfold stepSecondary
  split
  · exact isSuited_refuse
  · cases hshape : (OpcodeMap.secondary byte).shape with
    | undefined | prefixByte p | escape => exact isSuited_refuse
    | fixed body layout =>
        rw [hshape] at hsuited
        exact isSuited_awaitTrailing hsuited
    | modRm form width =>
        rw [hshape] at hsuited
        exact hsuited

theorem isSuited_stepModRm {form : ModRmForm} {width : Width} (hform : form.Suits width) :
    (d.stepModRm form width byte).IsSuited := by
  unfold stepModRm
  dsimp only
  cases hresolve : (ModRm.ofByte byte).resolve? d.model form width with
  | none => exact isSuited_refuse
  | some resolved =>
      have hsuits := ModRm.suits_of_resolve? hform (ModRm.mode_ofByte_lt byte)
        (ModRm.reg_ofByte_lt byte) (ModRm.rm_ofByte_lt byte) hresolve
      dsimp only
      split
      · exact hsuits
      · exact isSuited_awaitTrailing hsuits

theorem isSuited_step (h : d.phase.IsSuited) (byte : UInt8) : (d.step byte).IsSuited := by
  unfold step
  cases hphase : d.phase with
  | opcode => exact isSuited_stepOpcode
  | secondary => exact isSuited_stepSecondary
  | modRm form width =>
      rw [hphase] at h
      exact isSuited_stepModRm h
  | scaleIndexBase body layout =>
      rw [hphase] at h
      exact isSuited_awaitTrailing h
  | trailing body layout received register =>
      rw [hphase] at h
      dsimp only
      unfold stepTrailing
      dsimp only
      split
      · exact h
      · exact fun _ => h.withTrailing _

theorem wellFormed_of_decode_complete (h : d.phase.IsSuited) {bytes : List UInt8} {length : Nat}
    {i : Instruction} (hdecode : (d.decode bytes).1 = .complete length i)
    (hdefined : i.isUndefined = false) : i.toBody.WellFormed := by
  induction bytes generalizing d with
  | nil => cases hdecode
  | cons byte bytes ih =>
      have hstep := isSuited_step h byte
      rw [decode_cons] at hdecode
      cases hresult : d.step byte with
      | complete length' i' =>
          rw [hresult] at hdecode hstep
          cases hdecode
          exact hstep hdefined
      | pending d' =>
          rw [hresult] at hdecode hstep
          exact ih hstep hdecode

/-- Every instruction that a decoder completes is well formed, in whatever pieces the bytes came and
whatever the decoder was used for before. -/
theorem wellFormed_of_decode (model : Model) (calls : List Call) (bytes : List UInt8)
    (length : Nat) (i : Instruction)
    (h : (((new model).after calls).decode bytes).1 = .complete length i)
    (hdefined : i.isUndefined = false) : i.toBody.WellFormed := by
  obtain ⟨pending, hpending⟩ := exists_inProgress_after model calls
  rw [hpending.decode_eq] at h
  exact wellFormed_of_decode_complete (d := new model) trivial h hdefined

/-- A multiplication by an immediate value, of which the last two bytes come with another call. -/
theorem wellFormed_of_decode_imul :
    let calls := [.decode [0x26], .decode [0x6B, 0x46]]
    let i : Instruction :=
      { operation := .imul, source := some .indirect, destination := some (.register .ax),
        width := .word, sib := { index := some .bp }, displacement := -2, operand := 0xFF80,
        segmentOverride := some .es }
    (((new .i80186).after calls).decode [0xFE, 0x80, 0x90]).1 = .complete 5 i ∧
      i.isUndefined = false ∧ i.toBody.WellFormed := by
  intro calls i
  have hdecode : (((new .i80186).after calls).decode [0xFE, 0x80, 0x90]).1 = .complete 5 i := by
    decide +kernel
  exact ⟨hdecode, rfl, wellFormed_of_decode .i80186 calls _ 5 i hdecode rfl⟩

end Decoder

end Iapx86
