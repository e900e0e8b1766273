/-!
# Operations

What an instruction does, and the classes of operations that are encoded or written in a way of
their own. `undefined` is what a byte sequence does that encodes nothing.
-/

namespace Iapx86

/-- What an instruction does. -/
inductive Operation where
  /-- No operation: the bytes are no legal encoding. -/
  | undefined
  -- Decimal and ASCII adjustments.
  | aaa | aad | aam | aas | daa | das
  -- Arithmetic and logic.
  | add | adc | sub | sbb | and | or | xor | cmp | test | not | neg | mul | imul | div | idiv
  | inc | dec | cbw | cwd
  -- Shifts and rotations.
  | rol | ror | rcl | rcr | sal | shr | sar
  -- Moving data.
  | mov | xchg | lea | lds | les | lahf | sahf | xlat | push | pop | pushf | popf | pusha
  | popa
  -- Strings.
  | movs | cmps | scas | lods | stos | ins | outs
  -- Input and output.
  | input | output
  -- Conditional branches in the order of their condition codes.
  | jo | jno | jb | jnb | je | jne | jbe | jnbe | js | jns | jp | jnp | jl | jnl | jle | jnle
  -- Loops.
  | loop | loope | loopne | jcxz
  -- Calls and jumps: relative, through a near pointer, and to another segment.
  | callRelative | callNear | callFar | jmpRelative | jmpNear | jmpFar
  -- Returns and interrupts.
  | retNear | retFar | int | int3 | into | iret
  -- Flags and control of the processor; `esc` hands over to the coprocessor.
  | clc | stc | cli | sti | cld | std | cmc | hlt | wait | nop | esc
  -- Since the 80186.
  | bound | enter | leave
  -- Since the 80286.
  | arpl | sldt | str | lldt | ltr | verr | verw | sgdt | lgdt | smsw | lmsw | lar | lsl
  | loadall | clts
  deriving DecidableEq, Repr, Inhabited

namespace Operation

/-- The name of an operation in assembly text, without the width that the names of string
operations end in. -/
def mnemonic : Operation → String
  | undefined => "(bad)"
  | aaa => "aaa"
  | aad => "aad"
  | aam => "aam"
  | aas => "aas"
  | daa => "daa"
  | das => "das"
  | add => "add"
  | adc => "adc"
  | sub => "sub"
  | sbb => "sbb"
  | and => "and"
  | or => "or"
  | xor => "xor"
  | cmp => "cmp"
  | test => "test"
  | not => "not"
  | neg => "neg"
  | mul => "mul"
  | imul => "imul"
  | div => "div"
  | idiv => "idiv"
  | inc => "inc"
  | dec => "dec"
  | cbw => "cbw"
  | cwd => "cwd"
  | rol => "rol"
  | ror => "ror"
  | rcl => "rcl"
  | rcr => "rcr"
  | sal => "sal"
  | shr => "shr"
  | sar => "sar"
  | mov => "mov"
  | xchg => "xchg"
  | lea => "lea"
  | lds => "lds"
  | les => "les"
  | lahf => "lahf"
  | sahf => "sahf"
  | xlat => "xlat"
  | push => "push"
  | pop => "pop"
  | pushf => "pushf"
  | popf => "popf"
  | pusha => "pusha"
  | popa => "popa"
  | movs => "movs"
  | cmps => "cmps"
  | scas => "scas"
  | lods => "lods"
  | stos => "stos"
  | ins => "ins"
  | outs => "outs"
  | input => "in"
  | output => "out"
  | jo => "jo"
  | jno => "jno"
  | jb => "jb"
  | jnb => "jnb"
  | je => "je"
  | jne => "jne"
  | jbe => "jbe"
  | jnbe => "jnbe"
  | js => "js"
  | jns => "jns"
  | jp => "jp"
  | jnp => "jnp"
  | jl => "jl"
  | jnl => "jnl"
  | jle => "jle"
  | jnle => "jnle"
  | loop => "loop"
  | loope => "loope"
  | loopne => "loopne"
  | jcxz => "jcxz"
  | callRelative => "call"
  | callNear => "call"
  | callFar => "callf"
  | jmpRelative => "jmp"
  | jmpNear => "jmp"
  | jmpFar => "jmpf"
  | retNear => "ret"
  | retFar => "retf"
  | int => "int"
  | int3 => "int3"
  | into => "into"
  | iret => "iret"
  | clc => "clc"
  | stc => "stc"
  | cli => "cli"
  | sti => "sti"
  | cld => "cld"
  | std => "std"
  | cmc => "cmc"
  | hlt => "hlt"
  | wait => "wait"
  | nop => "nop"
  | esc => "esc"
  | bound => "bound"
  | enter => "enter"
  | leave => "leave"
  | arpl => "arpl"
  | sldt => "sldt"
  | str => "str"
  | lldt => "lldt"
  | ltr => "ltr"
  | verr => "verr"
  | verw => "verw"
  | sgdt => "sgdt"
  | lgdt => "lgdt"
  | smsw => "smsw"
  | lmsw => "lmsw"
  | lar => "lar"
  | lsl => "lsl"
  | loadall => "loadall"
  | clts => "clts"

/-- The conditional branches, indexed by condition code. -/
def conditionalBranches : List Operation :=
  [jo, jno, jb, jnb, je, jne, jbe, jnbe, js, jns, jp, jnp, jl, jnl, jle, jnle]

/-- Whether the operation reads its only operand and writes it back. -/
def isSingleOperand : Operation → Bool
  | inc | dec | not | neg | sldt | str | lldt | ltr | verr | verw | sgdt | lgdt | smsw | lmsw => true
  | _ => false

/-- Whether the operation is one on strings, which is named together with its width. -/
def isString : Operation → Bool
  | movs | cmps | scas | lods | stos | ins | outs => true
  | _ => false

/-- Whether the operation is input or output. -/
def isInputOutput : Operation → Bool
  | input | output => true
  | _ => false

/-- Whether the operation shifts or rotates. -/
def isShift : Operation → Bool
  | rol | ror | rcl | rcr | sal | shr | sar => true
  | _ => false

/-- Whether the operation branches by a signed distance from the end of the instruction. -/
def isRelativeBranch : Operation → Bool
  | jo | jno | jb | jnb | je | jne | jbe | jnbe | js | jns | jp | jnp | jl | jnl | jle | jnle
  | loop | loope | loopne | jcxz | callRelative | jmpRelative => true
  | _ => false

end Operation

end Iapx86
