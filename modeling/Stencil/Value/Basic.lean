import Stencil.Metadata
import Stencil.Template.Segment

/-!
# Values

The dynamic values of expressions and parameters. Templates and functions supplied by the host
carry a serial number: they are equal only to themselves.
-/

namespace Stencil

/-- The functions every expression can call by name. -/
inductive Builtin where
  | range
  | len
  | str
  | int
  | float
  | bool
  | abs
  | min
  | max
  | sum
  | sorted
  | reversed
  | enumerate
  | zip
  | list
  deriving DecidableEq, Inhabited

def Builtin.name : Builtin → String
  | range => "range"
  | len => "len"
  | str => "str"
  | int => "int"
  | float => "float"
  | bool => "bool"
  | abs => "abs"
  | min => "min"
  | max => "max"
  | sum => "sum"
  | sorted => "sorted"
  | reversed => "reversed"
  | enumerate => "enumerate"
  | zip => "zip"
  | list => "list"

def Builtin.all : List Builtin :=
  [range, len, str, int, float, bool, abs, min, max, sum, sorted, reversed, enumerate, zip, list]

def Builtin.ofName? (name : String) : Option Builtin :=
  Builtin.all.find? (·.name == name)

inductive Function where
  | builtin (function : Builtin)
  | host (name : String) (serial : Nat)
  deriving DecidableEq, Inhabited

def Function.name : Function → String
  | builtin function => function.name
  | host name _ => name

/-- A compiled template with defaults and globals of type `α`. -/
structure Compiled (α : Type) where
  body : List (Located Step)
  defaults : List (String × α)
  metadata : Metadata α
  serial : Nat
  deriving Inhabited

/-- A dynamic value. The keys of a map are distinct and in the order of their setting. -/
inductive Value where
  | none
  | bool (b : Bool)
  | int (i : Int64)
  | real (x : Float)
  | text (s : String)
  | list (items : List Value)
  | map (entries : List (String × Value))
  | template (t : Compiled Value)
  | function (f : Function)
  deriving Inhabited

abbrev Template := Compiled Value

def Compiled.name {α : Type} (t : Compiled α) : String :=
  t.metadata.name

namespace Value

def ofLiteral : Literal → Value
  | .none => none
  | .bool b => bool b
  | .int i => int i
  | .real x => real x
  | .text s => text s

def typeName : Value → String
  | none => "NoneType"
  | bool _ => "bool"
  | int _ => "int"
  | real _ => "float"
  | text _ => "str"
  | list _ => "list"
  | map _ => "dict"
  | template _ => "Template"
  | function _ => "function"

def truthy : Value → Bool
  | none => false
  | bool b => b
  | int i => i != 0
  | real x => x != 0
  | text s => !s.isEmpty
  | list items => !items.isEmpty
  | map entries => !entries.isEmpty
  | template _ => true
  | function _ => true

def ofChar (c : Char) : Value :=
  text (String.singleton c)

/-- A count as a value. One beyond the greatest integer is given as that integer. -/
def ofNat (n : Nat) : Value :=
  int (Int64.ofNat (min n Int64.maxValue.toInt.toNat))

end Value

end Stencil
