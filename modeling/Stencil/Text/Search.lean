/-!
# Search

Occurrences of one list in another, found from left to right without overlap.
-/

namespace Stencil.Text

variable {α : Type} [BEq α]

/-- The least index at which `part` stands in `whole`. -/
def find? (part : List α) : List α → Option Nat
  | [] => if part.isEmpty then some 0 else none
  | x :: xs => if part.isPrefixOf (x :: xs) then some 0 else (find? part xs).map (· + 1)

def occurs (part whole : List α) : Bool :=
  (find? part whole).isSome

/-- Splits after skipping the rest of a separator. -/
def splitAfter (separator : List α) : Nat → List α → List (List α)
  | _, [] => [[]]
  | skip + 1, _ :: xs => splitAfter separator skip xs
  | 0, x :: xs =>
    if separator.isPrefixOf (x :: xs) then [] :: splitAfter separator (separator.length - 1) xs
    else (splitAfter separator 0 xs).modifyHead (x :: ·)

/-- The parts between the occurrences of a separator that is not empty. -/
def split (separator whole : List α) : List (List α) :=
  splitAfter separator 0 whole

def replaceAfter (old new : List α) : Nat → List α → List α
  | _, [] => []
  | skip + 1, _ :: xs => replaceAfter old new skip xs
  | 0, x :: xs =>
    if old.isPrefixOf (x :: xs) then new ++ replaceAfter old new (old.length - 1) xs
    else x :: replaceAfter old new 0 xs

/-- Writes `new` for every occurrence of `old`; the empty list occurs before every element and at
the end. -/
def replace (old new whole : List α) : List α :=
  if old.isEmpty then new ++ whole.flatMap (· :: new) else replaceAfter old new 0 whole

def countAfter (part : List α) : Nat → List α → Nat
  | _, [] => 0
  | skip + 1, _ :: xs => countAfter part skip xs
  | 0, x :: xs =>
    if part.isPrefixOf (x :: xs) then countAfter part (part.length - 1) xs + 1
    else countAfter part 0 xs

/-- The number of occurrences; the empty list occurs once more than there are elements. -/
def countOf (part whole : List α) : Nat :=
  if part.isEmpty then whole.length + 1 else countAfter part 0 whole

end Stencil.Text
