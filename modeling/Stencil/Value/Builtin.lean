import Stencil.Number.Progression
import Stencil.Number.Real
import Stencil.Text.Blank
import Stencil.Value.Operator
import Stencil.Value.Sort
import Stencil.Value.Text

/-!
# Builtin functions

The functions that every expression can call.
-/

namespace Stencil

namespace Value

/-- Refuses a number of arguments outside its bounds. -/
def arity (name : String) (args : List Value) (least most : Nat) : Except EvalError Unit :=
  if least ≤ args.length ∧ args.length ≤ most then .ok ()
  else
    let (bound, count) :=
      if least = most then ("exactly", least)
      else if args.length < least then ("at least", least)
      else ("at most", most)
    .error (.type (name ++ "() takes " ++ bound ++ " " ++ Number.naturalText count ++ " argument" ++
      (if count = 1 then "" else "s") ++ " (" ++ Number.naturalText args.length ++ " given)"))

def expectInt (name : String) : Value → Except EvalError Int64
  | int i => .ok i
  | bool b => .ok (if b then 1 else 0)
  | v => .error (.type (name ++ "() expected an integer, got '" ++ v.typeName ++ "'"))

def expectText (name : String) : Value → Except EvalError String
  | text s => .ok s
  | v => .error (.type (name ++ "() argument must be str, not " ++ v.typeName))

def range (start stop step : Int64) : Except EvalError Value :=
  if step = 0 then .error (.value "range() arg 3 must not be zero")
  else .ok (list ((Number.countOn stop step start #[]).toList.map int))

/-- A value as an integer: digits in a text, a real number cut to its whole part. -/
def toInt : Value → Except EvalError Value
  | int i => .ok (int i)
  | bool b => .ok (int (if b then 1 else 0))
  | text s =>
    match Number.readInteger? (Text.trim s.toList) with
    | some i => .ok (int i)
    | Option.none =>
      .error (.value ("invalid literal for int() with base 10: " ++ (text s).repr))
  | real x =>
    if x.isFinite then .ok (int x.toInt64)
    else .error (.type "int() argument must be a string or a number, not 'float'")
  | v => .error (.type ("int() argument must be a string or a number, not '" ++ v.typeName ++ "'"))

def toReal : Value → Except EvalError Value
  | text s =>
    match Number.readReal? (Text.trim s.toList) with
    | some x => .ok (real x)
    | Option.none => .error (.value ("could not convert string to float: " ++ (text s).repr))
  | v =>
    match v.number? with
    | some n => .ok (real n.toFloat)
    | Option.none =>
      .error (.type ("float() argument must be a string or a number, not '" ++ v.typeName ++ "'"))

def length : Value → Except EvalError Value
  | text s => .ok (ofNat s.toList.length)
  | list items => .ok (ofNat items.length)
  | map entries => .ok (ofNat entries.length)
  | v => .error (.type ("object of type '" ++ v.typeName ++ "' has no len()"))

def magnitude : Value → Except EvalError Value
  | int i => fitted (Number.fit? i.toInt.natAbs)
  | bool b => .ok (int (if b then 1 else 0))
  | real x => .ok (real x.abs)
  | v => .error (.type ("bad operand type for abs(): '" ++ v.typeName ++ "'"))

/-- What the least or greatest is taken from: the items of one argument, or several arguments. -/
def candidates (name : String) : List Value → Except EvalError (List Value)
  | [] => .error (.type (name ++ "() expected at least 1 argument, got 0"))
  | [v] => v.iterate
  | vs => .ok vs

def best (name : String) (wanted : Ordering) (args : List Value) : Except EvalError Value := do
  match ← candidates name args with
  | [] => .error (.value (name ++ "() arg is an empty sequence"))
  | first :: rest => extreme wanted first rest

/-- The rows made of the items of each column at one place, as many as the shortest column has. -/
def rows (columns : List (List Value)) : List (List Value) :=
  match columns.map List.length with
  | [] => []
  | n :: ns => (List.range (ns.foldl min n)).map fun row => columns.filterMap (·[row]?)

def numbered (start : Int64) (items : List Value) : List Value :=
  items.mapIdx fun i item => list [int (start + Int64.ofNat i), item]

end Value

open Value in
def Builtin.call (f : Builtin) (args : List Value) : Except EvalError Value :=
  match f with
  | range => do
    arity f.name args 1 3
    match ← args.mapM (expectInt f.name) with
    | [stop] => Value.range 0 stop 1
    | [start, stop] => Value.range start stop 1
    | start :: stop :: step :: _ => Value.range start stop step
    | [] => .ok (.list [])
  | len => do
    arity f.name args 1 1
    (args.headD .none).length
  | str => do
    arity f.name args 0 1
    return .text ((args.head?.map Value.display).getD "")
  | int => do
    arity f.name args 0 1
    toInt (args.headD (.int 0))
  | float => do
    arity f.name args 0 1
    toReal (args.headD (.real 0))
  | bool => do
    arity f.name args 0 1
    return .bool (args.headD (.bool false)).truthy
  | abs => do
    arity f.name args 1 1
    (args.headD .none).magnitude
  | min => best f.name .lt args
  | max => best f.name .gt args
  | sum => do
    arity f.name args 1 2
    let items ← (args.headD .none).iterate
    items.foldlM (binary .add) (args[1]?.getD (.int 0))
  | sorted => do
    arity f.name args 1 1
    return .list (← sortItems (← (args.headD .none).iterate))
  | reversed => do
    arity f.name args 1 1
    return .list (← (args.headD .none).iterate).reverse
  | enumerate => do
    arity f.name args 1 2
    let start ← expectInt f.name (args[1]?.getD (.int 0))
    return .list (numbered start (← (args.headD .none).iterate))
  | zip => do
    return .list ((rows (← args.mapM iterate)).map .list)
  | list => do
    arity f.name args 0 1
    return .list (← (args.headD (.list [])).iterate)

end Stencil
