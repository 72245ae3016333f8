import Stencil.Number.Real
import Stencil.Text.Quoted
import Stencil.Value.Basic

/-!
# The text of values

A value as it is written into output, and as it is shown inside collections and messages: there
texts stand in quotes.
-/

namespace Stencil.Value

mutual

/-- A value as an expression would write it. -/
def shown : Value → List Char
  | none => ['N', 'o', 'n', 'e']
  | bool true => ['T', 'r', 'u', 'e']
  | bool false => ['F', 'a', 'l', 's', 'e']
  | int i => Number.integerText i
  | real x => Number.realText x
  | text s => Text.quoted s.toList
  | list items => '[' :: [',', ' '].intercalate (shownItems items) ++ [']']
  | map entries => '\x7b' :: [',', ' '].intercalate (shownEntries entries) ++ ['\x7d']
  | template t => "<Template ".toList ++ t.name.toList ++ ['>']
  | function f => "<function ".toList ++ f.name.toList ++ ['>']

def shownItems : List Value → List (List Char)
  | [] => []
  | v :: vs => shown v :: shownItems vs

def shownEntries : List (String × Value) → List (List Char)
  | [] => []
  | (k, v) :: rest => (Text.quoted k.toList ++ ':' :: ' ' :: shown v) :: shownEntries rest

end

theorem shown_int (i : Int64) : (int i).shown = Number.integerText i := rfl

theorem shownItems_cons (v : Value) (vs : List Value) :
    shownItems (v :: vs) = v.shown :: shownItems vs := rfl

theorem shownEntries_cons (k : String) (v : Value) (rest : List (String × Value)) :
    shownEntries ((k, v) :: rest) =
      (Text.quoted k.toList ++ ':' :: ' ' :: v.shown) :: shownEntries rest := rfl

/-- A value as it is shown in messages. -/
def repr (v : Value) : String :=
  String.ofList v.shown

/-- A value as it is written into output. -/
def display : Value → String
  | text s => s
  | v => v.repr

end Stencil.Value
