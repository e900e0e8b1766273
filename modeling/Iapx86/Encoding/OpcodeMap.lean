import Iapx86.Encoding.ModRm

/-!
# The opcode map

What each opcode byte means, in rows of eight as opcode maps are printed, and the oldest model
that knows it. `OpcodeMap.primary` is the map of the first byte of an instruction and
`OpcodeMap.secondary` that of the byte after `0F`. The map is data: whether an opcode is legal and
how the bytes after it are read is decided elsewhere, by looking it up.
-/

namespace Iapx86

/-- A byte that modifies the instruction after it. -/
inductive PrefixByte where
  | segment (s : Segment)
  | lock
  | repetition (r : Repetition)
  | addressSize
  deriving DecidableEq, Repr

/-- What a byte before the opcode adds to the bytes before it. Of two that ask for the same thing
the later one prevails. -/
def PrefixByte.apply : PrefixByte → Prefixes → Prefixes
  | segment s, p => { p with segmentOverride := some s }
  | lock, p => { p with lock := true }
  | repetition r, p => { p with repetition := some r }
  | addressSize, p => { p with addressSize := .bits32 }

/-- What follows an opcode and what the instruction is. -/
inductive OpcodeShape where
  /-- No instruction begins so. -/
  | undefined
  | prefixByte (p : PrefixByte)
  /-- The next byte is looked up on the secondary page. -/
  | escape
  /-- The opcode says it all, but for the trailing bytes. -/
  | fixed (body : Body) (layout : TrailingLayout)
  /-- An addressing byte follows. -/
  | modRm (form : ModRmForm) (width : Width)
  deriving DecidableEq, Repr

/-- An opcode's place in the map. -/
structure OpcodeEntry where
  shape : OpcodeShape
  /-- The oldest model that knows the opcode. -/
  since : Model := .i8086
  deriving DecidableEq, Repr

namespace OpcodeEntry

/-- An opcode that no model knows. -/
def undefined : OpcodeEntry := ⟨.undefined, .i8086⟩

instance : Inhabited OpcodeEntry := ⟨undefined⟩

/-- Whether a model knows the opcode. -/
def isLegalOn (entry : OpcodeEntry) (model : Model) : Bool :=
  entry.shape ≠ .undefined ∧ entry.since ≤ model

end OpcodeEntry

namespace OpcodeMap

/-- The same opcode, known since the given model. -/
def since (model : Model) (entry : OpcodeEntry) : OpcodeEntry := { entry with since := model }

/-- An instruction of one byte. -/
def plain (operation : Operation) (width : Width) : OpcodeEntry :=
  ⟨.fixed { operation, width } {}, .i8086⟩

/-- An instruction of one byte, with operands in the order of assembly text. -/
def operands (operation : Operation) (destination source : Option Operand) (width : Width) :
    OpcodeEntry :=
  ⟨.fixed { operation, destination, source, width } {}, .i8086⟩

/-- An instruction with an immediate value among its operands. -/
def immediate (operation : Operation) (destination source : Option Operand) (width : Width)
    (operand : OperandField) : OpcodeEntry :=
  ⟨.fixed { operation, destination, source, width } { operand }, .i8086⟩

/-- To a register, from an immediate value as wide as the operation. -/
def registerData (operation : Operation) (r : Register) (width : Width) : OpcodeEntry :=
  immediate operation (some (.register r)) (some .immediate) width (.ofWidth width)

/-- Between the accumulator and memory at an address in the instruction. -/
def accumulatorMemory (destination source : Operand) (width : Width) : OpcodeEntry :=
  ⟨.fixed { operation := .mov, destination := some destination, source := some source, width }
    { displacement := .word }, .i8086⟩

/-- A branch by a signed distance. -/
def relative (operation : Operation) (displacement : DisplacementField) : OpcodeEntry :=
  ⟨.fixed { operation } { displacement }, .i8086⟩

/-- A call or jump to another segment. -/
def far (operation : Operation) : OpcodeEntry :=
  ⟨.fixed { operation, source := some .immediate } { operand := .farPointer }, .i8086⟩

/-- Setting up a frame: its size is a word in the place of a displacement, its level a byte. -/
def enter : OpcodeEntry :=
  ⟨.fixed { operation := .enter, source := some .immediate }
    { displacement := .word, operand := .byte }, .i8086⟩

/-- An opcode with an addressing byte. -/
def modRm (form : ModRmForm) (width : Width) : OpcodeEntry := ⟨.modRm form width, .i8086⟩

/-- A byte before the opcode. -/
def modifier (p : PrefixByte) : OpcodeEntry := ⟨.prefixByte p, .i8086⟩

/-- The six forms of an arithmetic operation. -/
def arithmetic (operation : Operation) : List OpcodeEntry :=
  [ modRm (.toMemory operation) .byte, modRm (.toMemory operation) .word,
    modRm (.toRegister operation) .byte, modRm (.toRegister operation) .word,
    registerData operation .ax .byte, registerData operation .ax .word ]

/-- Pushing a segment register. -/
def pushSegment (s : Segment) : OpcodeEntry := operands .push none (some (.segment s)) .word

/-- Popping a segment register. -/
def popSegment (s : Segment) : OpcodeEntry := operands .pop (some (.segment s)) none .word

/-- An operation on each of the registers of words. -/
def onRegisters (operation : Operation) : List OpcodeEntry :=
  Register.words.map fun r =>
    operands operation (some (.register r)) (some (.register r)) .word

/-- An operation on strings of bytes and of words. -/
def onStrings (operation : Operation) : List OpcodeEntry :=
  [plain operation .byte, plain operation .word]

/-- A form that is used with bytes and with words. -/
def bytesAndWords (form : ModRmForm) : List OpcodeEntry := [modRm form .byte, modRm form .word]

/-- The rows of the map of first bytes. -/
def primaryRows : List (List OpcodeEntry) :=
  let ax : Operand := .register .ax
  let dx : Operand := .register .dx
  [ -- 00
    arithmetic .add ++ [pushSegment .es, popSegment .es],
    arithmetic .or ++ [pushSegment .cs, ⟨.escape, .i80286⟩],
    -- 10
    arithmetic .adc ++ [pushSegment .ss, popSegment .ss],
    arithmetic .sbb ++ [pushSegment .ds, popSegment .ds],
    -- 20
    arithmetic .and ++ [modifier (.segment .es), operands .daa (some ax) (some ax) .byte],
    arithmetic .sub ++ [modifier (.segment .cs), operands .das (some ax) (some ax) .byte],
    -- 30
    arithmetic .xor ++ [modifier (.segment .ss), operands .aaa (some ax) (some ax) .word],
    arithmetic .cmp ++ [modifier (.segment .ds), operands .aas (some ax) (some ax) .word],
    -- 40
    onRegisters .inc,
    onRegisters .dec,
    -- 50
    Register.words.map fun r => operands .push none (some (.register r)) .word,
    Register.words.map fun r => operands .pop (some (.register r)) none .word,
    -- 60
    [ since .i80186 (plain .pusha .word),
      since .i80186 (plain .popa .word),
      since .i80186 (modRm (.fromAddress .bound) .word),
      since .i80286 (modRm (.toMemory .arpl) .word),
      since .i80386 (modifier (.segment .fs)),
      since .i80386 (modifier (.segment .gs)),
      .undefined,
      since .i80386 (modifier .addressSize) ],
    [ since .i80186 (immediate .push none (some .immediate) .word .word),
      since .i80186 (modRm (.toRegisterImmediate .imul .word) .word),
      since .i80186 (immediate .push none (some .immediate) .word .byte),
      since .i80186 (modRm (.toRegisterImmediate .imul .byte) .word) ]
      ++ (onStrings .ins).map (since .i80186) ++ (onStrings .outs).map (since .i80186),
    -- 70
    (Operation.conditionalBranches.take 8).map (relative · .byte),
    (Operation.conditionalBranches.drop 8).map (relative · .byte),
    -- 80
    [ modRm (.arithmetic .byte) .byte, modRm (.arithmetic .word) .word,
      modRm (.arithmetic .byte) .byte, modRm (.arithmetic .byte) .word ]
      ++ bytesAndWords (.toMemory .test) ++ bytesAndWords (.toRegister .xchg),
    bytesAndWords (.toMemory .mov) ++ bytesAndWords (.toRegister .mov)
      ++ [ modRm .fromSegment .word, modRm (.fromAddress .lea) .word,
           modRm .toSegment .word, modRm .pop .word ],
    -- 90
    plain .nop .implied :: (Register.words.drop 1).map fun r =>
      operands .xchg (some (.register r)) (some ax) .word,
    [ operands .cbw (some (.register .ah)) (some ax) .byte, operands .cwd (some dx) (some ax) .word,
      far .callFar, plain .wait .implied,
      plain .pushf .word, plain .popf .word, plain .sahf .byte, plain .lahf .byte ],
    -- A0
    [ accumulatorMemory ax .directAddress .byte, accumulatorMemory ax .directAddress .word,
      accumulatorMemory .directAddress ax .byte, accumulatorMemory .directAddress ax .word ]
      ++ onStrings .movs ++ onStrings .cmps,
    [registerData .test .ax .byte, registerData .test .ax .word]
      ++ onStrings .stos ++ onStrings .lods ++ onStrings .scas,
    -- B0
    Register.bytes.map fun r => registerData .mov r .byte,
    Register.words.map fun r => registerData .mov r .word,
    -- C0
    (bytesAndWords (.shift .immediate)).map (since .i80186)
      ++ [ immediate .retNear none (some .immediate) .word .word, plain .retNear .word,
           modRm (.fromAddress .les) .word, modRm (.fromAddress .lds) .word ]
      ++ bytesAndWords .movImmediate,
    [ since .i80186 enter, since .i80186 (plain .leave .implied),
      immediate .retFar none (some .immediate) .word .word, plain .retFar .dword,
      plain .int3 .implied, immediate .int none (some .immediate) .byte .byte,
      plain .into .implied, plain .iret .implied ],
    -- D0
    bytesAndWords (.shift .one) ++ bytesAndWords (.shift .cl)
      ++ [ registerData .aam .ax .byte, registerData .aad .ax .byte,
           .undefined, plain .xlat .byte ],
    List.replicate 8 (modRm .coprocessor .implied),
    -- E0
    [ relative .loopne .byte, relative .loope .byte, relative .loop .byte, relative .jcxz .byte,
      immediate .input (some ax) (some .immediate) .byte .byte,
      immediate .input (some ax) (some .immediate) .word .byte,
      immediate .output (some .immediate) (some ax) .byte .byte,
      immediate .output (some .immediate) (some ax) .word .byte ],
    [ relative .callRelative .word, relative .jmpRelative .word,
      far .jmpFar, relative .jmpRelative .byte,
      operands .input (some ax) (some dx) .byte, operands .input (some ax) (some dx) .word,
      operands .output (some dx) (some ax) .byte, operands .output (some dx) (some ax) .word ],
    -- F0
    [ modifier .lock, .undefined,
      modifier (.repetition .whileNotEqual), modifier (.repetition .whileEqual),
      plain .hlt .implied, plain .cmc .implied ]
      ++ bytesAndWords .unary,
    [ plain .clc .implied, plain .stc .implied, plain .cli .implied, plain .sti .implied,
      plain .cld .implied, plain .std .implied,
      modRm .incDec .byte, modRm .incToPush .word ] ]

/-- The row of the secondary page that means something. -/
def secondaryRows : List (List OpcodeEntry) :=
  [ [ since .i80286 (modRm .localDescriptor .word),
      since .i80286 (modRm .globalDescriptor .word),
      since .i80286 (modRm (.toRegister .lar) .word),
      since .i80286 (modRm (.toRegister .lsl) .word),
      .undefined,
      since .i80286 (plain .loadall .implied),
      since .i80286 (plain .clts .implied) ] ]

/-- The entry in the row and column of an opcode. -/
def lookup (rows : List (List OpcodeEntry)) (opcode : UInt8) : OpcodeEntry :=
  (rows.getD (opcode.toNat / 8) []).getD (opcode.toNat % 8) .undefined

/-- What a first byte means. -/
def primary (opcode : UInt8) : OpcodeEntry := lookup primaryRows opcode

/-- What a byte after `0F` means. -/
def secondary (opcode : UInt8) : OpcodeEntry := lookup secondaryRows opcode

end OpcodeMap

end Iapx86
