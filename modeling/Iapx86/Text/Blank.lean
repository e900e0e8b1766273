/-!
# Blanks and words

Which characters separate words, and how a text is taken apart into the words between separators.
`isBlank` is the property White_Space of the Unicode standard.
-/

namespace Iapx86

namespace Text

/-- Whether a character is a blank: the property White_Space. -/
def isBlank (c : Char) : Bool :=
  let n := c.toNat
  (0x09 ≤ n && n ≤ 0x0D) || n = 0x20 || n = 0x85 || n = 0xA0 || n = 0x1680
    || (0x2000 ≤ n && n ≤ 0x200A) || n = 0x2028 || n = 0x2029 || n = 0x202F || n = 0x205F
    || n = 0x3000

/-- The text without the blanks at its ends. -/
def trim (cs : List Char) : List Char :=
  ((cs.dropWhile isBlank).reverse.dropWhile isBlank).reverse

/-- The letters of ASCII in lower case, and all else as it is. -/
def lower (cs : List Char) : List Char := cs.map Char.toLower

/-- The words of the remaining text, when `word` is what has been read of the current one. Nothing
between two separators is no word. -/
def wordsFrom (separates : Char → Bool) (word : List Char) : List Char → List (List Char)
  | [] => if word = [] then [] else [word]
  | c :: cs =>
      if separates c then
        if word = [] then wordsFrom separates [] cs
        else word :: wordsFrom separates [] cs
      else wordsFrom separates (word ++ [c]) cs

/-- The words between separators. -/
def words (separates : Char → Bool) (cs : List Char) : List (List Char) :=
  wordsFrom separates [] cs

@[simp] theorem words_nil (separates : Char → Bool) : words separates [] = [] := rfl

/-- Whether a text occurs within another. -/
def occursIn (part : List Char) : List Char → Bool
  | [] => part.isEmpty
  | c :: cs => part.isPrefixOf (c :: cs) || occursIn part cs

theorem occursIn_iff {part cs : List Char} : occursIn part cs ↔ part <:+: cs := by
  induction cs with
  | nil => simp [occursIn]
  | cons c cs ih =>
      simp only [occursIn, Bool.or_eq_true, List.isPrefixOf_iff_prefix, ih, List.infix_cons_iff]

end Text

end Iapx86
