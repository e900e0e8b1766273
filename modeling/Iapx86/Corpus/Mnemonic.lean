import Iapx86.Text.Blank

/-!
# Mnemonics in other assemblers' words

The name of an operation, taken from a line of assembly text that another assembler wrote, in the
words of `Body.mnemonic`. What stands before the name is skipped, synonyms are replaced, and a call
or jump that is said to be far becomes the operation of that name.
-/

namespace Iapx86

namespace Corpus

/-- The words that may stand before the name of an operation. -/
def modifierWords : List String := ["lock", "rep", "repe", "repz", "repne", "repnz"]

/-- Synonyms, each with the name that is used here. -/
def synonyms : List (String × String) :=
  [ ("jz", "je"), ("jnz", "jne"), ("jc", "jb"), ("jnae", "jb"), ("jnc", "jnb"), ("jae", "jnb"),
    ("jna", "jbe"), ("ja", "jnbe"), ("jpe", "jp"), ("jpo", "jnp"), ("jnge", "jl"), ("jge", "jnl"),
    ("jng", "jle"), ("jg", "jnle"), ("loopz", "loope"), ("loopnz", "loopne"), ("shl", "sal"),
    ("fwait", "wait"), ("xlatb", "xlat"), ("pushfw", "pushf"), ("popfw", "popf"),
    ("iretw", "iret") ]

/-- Whether a character separates words: blanks and commas do. -/
def separatesWords (c : Char) : Bool := Text.isBlank c || c = ','

/-- The name that is used here for a word. -/
def canonicalName (word : String) : String := (synonyms.lookup word).getD word

/-- The name of the operation among the words that are left after those before it. -/
def mnemonicOfWords : List String → String
  | [] => ""
  | first :: rest =>
      if (first = "call" ∨ first = "jmp") ∧ rest.head? = some "far" then first ++ "f"
      else canonicalName first

/-- The name of the operation in a line of assembly text; nothing if there is none. -/
def expectedMnemonic (line : String) : String :=
  let words := (Text.words separatesWords (Text.lower line.toList)).map String.ofList
  mnemonicOfWords (words.dropWhile (· ∈ modifierWords))

end Corpus

end Iapx86
