/-!
# Blanks

The characters that Unicode calls white space, and the cutting of text at them.
-/

namespace Stencil.Text

/-- Whether a character is white space. The separators U+001C to U+001F are not. -/
def isBlank (c : Char) : Bool :=
  let n := c.toNat
  (9 ≤ n && n ≤ 13) || n == 0x20 || n == 0x85 || n == 0xA0 || n == 0x1680 ||
    (0x2000 ≤ n && n ≤ 0x200A) || n == 0x2028 || n == 0x2029 || n == 0x202F || n == 0x205F ||
    n == 0x3000

def dropEnd (p : Char → Bool) (cs : List Char) : List Char :=
  (cs.reverse.dropWhile p).reverse

def dropEnds (p : Char → Bool) (cs : List Char) : List Char :=
  dropEnd p (cs.dropWhile p)

def trim (cs : List Char) : List Char :=
  dropEnds isBlank cs

/-- Reads on with the word begun so far, which is given backwards. -/
def wordsFrom : List Char → List Char → List (List Char)
  | word, [] => if word.isEmpty then [] else [word.reverse]
  | word, c :: cs =>
    if isBlank c then
      if word.isEmpty then wordsFrom [] cs else word.reverse :: wordsFrom [] cs
    else wordsFrom (c :: word) cs

/-- The longest runs without a blank. -/
def words (cs : List Char) : List (List Char) :=
  wordsFrom [] cs

end Stencil.Text
