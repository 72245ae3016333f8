import Stencil.Text.Cased
import Stencil.Text.CaseTable
import Stencil.Text.Letter

/-!
# Letter case

Upper and lower case by the full Unicode mappings. A capital sigma becomes the final one at the end
of a word when a whole text is lowered.
-/

namespace Stencil.Text

/-- The image of a character under a mapping given by runs and expansions. -/
def mapped (runs : Array CaseRun) (expansions : Array (Nat × List Nat)) (c : Char) :
    List Char :=
  match expansions.find? (·.1 == c.toNat) with
  | some (_, image) => image.map Char.ofNat
  | none => [((runs.findSome? (·.image? c.toNat)).map Char.ofNat).getD c]

def upperChar (c : Char) : List Char :=
  if c.toNat < 128 then [c.toUpper] else mapped upperRuns upperExpansions c

/-- The lower case of a character by itself. -/
def lowerChar (c : Char) : List Char :=
  if c.toNat < 128 then [c.toLower] else mapped lowerRuns lowerExpansions c

def upper (cs : List Char) : List Char :=
  cs.flatMap upperChar

/-- Lowers what follows `before`, which is given backwards: a capital sigma is final after a cased
character and before none, case-ignorable ones aside. -/
def lowerAfter : List Char → List Char → List Char
  | _, [] => []
  | before, c :: cs =>
    let image :=
      if c = 'Σ' then
        if casedNext before && !casedNext cs then ['ς'] else ['σ']
      else lowerChar c
    image ++ lowerAfter (c :: before) cs

def lower (cs : List Char) : List Char :=
  lowerAfter [] cs

/-- Raises the letters that follow no letter and lowers the others. -/
def titleAfter : Bool → List Char → List Char
  | _, [] => []
  | inWord, c :: cs =>
    (if inWord then lowerChar c else upperChar c) ++ titleAfter (isLetter c) cs

def title (cs : List Char) : List Char :=
  titleAfter false cs

def capitalize : List Char → List Char
  | [] => []
  | c :: cs => upperChar c ++ lower cs

end Stencil.Text
