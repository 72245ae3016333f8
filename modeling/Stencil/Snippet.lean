import Stencil.Text.Lines

/-!
# Source snippets

The lines around an error, two before and two after it, with the line of the error marked.
-/

namespace Stencil

/-- A window of a source around a line. -/
structure Snippet where
  lines : List String
  line : Nat
  first : Nat
  last : Nat
  deriving DecidableEq, Inhabited

/-- The window around a line, cut off at the ends of the source. -/
def Snippet.around (source : String) (line : Nat) : Snippet :=
  let lines := (Text.lines source.toList).map String.ofList
  ⟨lines, line, max (line - 2) 1, min (line + 2) lines.length⟩

def padLeft (width n : Nat) : String :=
  let digits := Nat.toDigits 10 n
  String.ofList (List.replicate (width - digits.length) ' ' ++ digits)

def Snippet.row (s : Snippet) (number : Nat) (text : String) : String :=
  " " ++ (if number = s.line then ">" else " ") ++ " " ++ padLeft 3 number ++ " | " ++ text ++ "\n"

/-- The numbers and texts of the lines in the window that exist. -/
def Snippet.window (s : Snippet) : List (Nat × String) :=
  let shown := (s.lines.drop (s.first - 1)).take (s.last + 1 - s.first)
  (List.range' s.first shown.length).zip shown

def Snippet.text (s : Snippet) : String :=
  String.join (s.window.map fun row => s.row row.1 row.2)

end Stencil
