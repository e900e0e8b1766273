/-!
# Operands

Where an instruction takes its data from and where it puts it: a general register, a segment
register, a value given in the instruction, or memory. Whether `ax` means the whole register or
its low byte is a matter of the width of the operation, so the low bytes have no register of their
own; the high bytes do.
-/

namespace Iapx86

/-- The width of the data that an instruction works on. -/
inductive Width where
  /-- The width does not matter to the operation. -/
  | implied
  | byte
  | word
  | dword
  deriving DecidableEq, Repr, Inhabited

/-- The number of bytes of a width, none when it is implied. -/
def Width.bytes : Width → Nat
  | .implied => 0
  | .byte => 1
  | .word => 2
  | .dword => 4

/-- The width of addresses. -/
inductive AddressSize where
  | bits16
  | bits32
  deriving DecidableEq, Repr, Inhabited

/-- A general register. In an operation on bytes, `ax`, `cx`, `dx` and `bx` stand for their low
bytes. -/
inductive Register where
  | ax | cx | dx | bx | sp | bp | si | di
  | ah | ch | dh | bh
  deriving DecidableEq, Repr, Inhabited

namespace Register

/-- The registers of words, in the order of their encoding. -/
def words : List Register := [ax, cx, dx, bx, sp, bp, si, di]

/-- The registers of bytes, in the order of their encoding. -/
def bytes : List Register := [ax, cx, dx, bx, ah, ch, dh, bh]

/-- The three-bit encoding of a register. -/
def index : Register → Nat
  | ax => 0
  | cx => 1
  | dx => 2
  | bx => 3
  | sp | ah => 4
  | bp | ch => 5
  | si | dh => 6
  | di | bh => 7

/-- The name of a register in an operation of the given width. -/
def name (width : Width) : Register → String
  | ax => if width = .byte then "al" else "ax"
  | cx => if width = .byte then "cl" else "cx"
  | dx => if width = .byte then "dl" else "dx"
  | bx => if width = .byte then "bl" else "bx"
  | sp => "sp"
  | bp => "bp"
  | si => "si"
  | di => "di"
  | ah => "ah"
  | ch => "ch"
  | dh => "dh"
  | bh => "bh"

/-- The general register that a three-bit field names in an operation of the given width. There
is none when the width is implied. -/
def ofIndex? : Width → Nat → Option Register
  | .implied, _ => none
  | .byte, i => bytes[i]?
  | .word, i | .dword, i => words[i]?

end Register

/-- A segment register. -/
inductive Segment where
  | es | cs | ss | ds | fs | gs
  deriving DecidableEq, Repr, Inhabited

namespace Segment

/-- The segment registers in the order of their encoding. -/
def all : List Segment := [es, cs, ss, ds, fs, gs]

/-- The encoding of a segment register. -/
def index : Segment → Nat
  | es => 0
  | cs => 1
  | ss => 2
  | ds => 3
  | fs => 4
  | gs => 5

/-- The name of a segment register. -/
def name : Segment → String
  | es => "es"
  | cs => "cs"
  | ss => "ss"
  | ds => "ds"
  | fs => "fs"
  | gs => "gs"

end Segment

/-- Where an operand is. -/
inductive Operand where
  | register (r : Register)
  | segment (s : Segment)
  /-- A value given by the instruction. -/
  | immediate
  /-- Memory at the address that the displacement gives. -/
  | directAddress
  /-- Memory at the sum of base, index and displacement. -/
  | indirect
  deriving DecidableEq, Repr

namespace Operand

/-- The encoding of the register that an operand is, if it is one. -/
def registerIndex? : Operand → Option Nat
  | register r => some r.index
  | segment s => some s.index
  | _ => none

/-- The name of the register that an operand is, if it is one. -/
def registerName? (width : Width) : Operand → Option String
  | register r => some (r.name width)
  | segment s => some s.name
  | _ => none

/-- Whether the operand lies in memory. -/
def isMemory : Operand → Bool
  | directAddress | indirect => true
  | _ => false

/-- Whether the operand is a segment register. -/
def isSegment : Operand → Bool
  | segment _ => true
  | _ => false

end Operand

/-- The registers that an address is the sum of. The index of a 16-bit address is never scaled,
so `scale` is always zero. -/
structure ScaleIndexBase where
  scale : Nat := 0
  base : Option Register := none
  index : Option Register := none
  deriving DecidableEq, Repr, Inhabited

end Iapx86
