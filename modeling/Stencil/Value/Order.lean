import Stencil.Error
import Stencil.Value.Basic

/-!
# Equality and order of values

Truth values count as integers, and an integer is compared with a real number as a real number.
Only numbers, texts and lists are ordered.
-/

namespace Stencil

/-- A number for arithmetic and comparison. -/
inductive Number where
  | int (i : Int64)
  | real (x : Float)

namespace Number

def toFloat : Number → Float
  | int i => i.toFloat
  | real x => x

def equal : Number → Number → Bool
  | int a, int b => a == b
  | a, b => a.toFloat == b.toFloat

/-- The order of two numbers, unless one of them is not a number. -/
def compare? : Number → Number → Option Ordering
  | int a, int b => some (compare a.toInt b.toInt)
  | a, b =>
    let x := a.toFloat
    let y := b.toFloat
    if x < y then some .lt else if x == y then some .eq else if y < x then some .gt else none

end Number

namespace Value

def number? : Value → Option Number
  | bool b => some (.int (if b then 1 else 0))
  | int i => some (.int i)
  | real x => some (.real x)
  | _ => Option.none

def equalNumbers (a b : Value) : Bool :=
  match a.number?, b.number? with
  | some x, some y => x.equal y
  | _, _ => false

mutual

/-- Whether two values are equal. Maps are equal whatever the order of their keys. -/
def equal : Value → Value → Bool
  | none, none => true
  | text a, text b => a == b
  | list a, list b => equalItems a b
  | map a, map b => a.length == b.length && equalEntries a b
  | template a, template b => a.serial == b.serial
  | function a, function b => a == b
  | a, b => equalNumbers a b

def equalItems : List Value → List Value → Bool
  | [], [] => true
  | a :: as, b :: bs => equal a b && equalItems as bs
  | _, _ => false

/-- Whether all entries are equal to those of the same key. -/
def equalEntries : List (String × Value) → Dict Value → Bool
  | [], _ => true
  | (k, v) :: rest, other =>
    (match other.get? k with
    | some w => equal v w
    | Option.none => false) && equalEntries rest other

end

instance : BEq Value := ⟨equal⟩

def compareNumbers (a b : Value) : Except EvalError Ordering :=
  match a.number?, b.number? with
  | some x, some y =>
    match x.compare? y with
    | some o => .ok o
    | Option.none => .error (.value "cannot order NaN")
  | _, _ =>
    .error (.type ("'<' not supported between instances of '" ++ a.typeName ++ "' and '" ++
      b.typeName ++ "'"))

mutual

/-- The order of two values, or why they have none. Lists are ordered by the first items that
differ, then by length. -/
def order : Value → Value → Except EvalError Ordering
  | text a, text b => .ok (if a < b then .lt else if a = b then .eq else .gt)
  | list a, list b => orderItems a b
  | a, b => compareNumbers a b

def orderItems : List Value → List Value → Except EvalError Ordering
  | [], [] => .ok .eq
  | [], _ :: _ => .ok .lt
  | _ :: _, [] => .ok .gt
  | a :: as, b :: bs =>
    match order a b with
    | .ok .eq => orderItems as bs
    | other => other

end

/-- Whether two values are the same: equal, of one type, and not texts, real numbers, lists or
maps. -/
def same : Value → Value → Bool
  | none, none => true
  | bool a, bool b => a == b
  | int a, int b => a == b
  | template a, template b => a.serial == b.serial
  | function a, function b => a == b
  | _, _ => false

/-- What a loop over a value runs through: items, characters, or keys. -/
def iterate : Value → Except EvalError (List Value)
  | list items => .ok items
  | text s => .ok (s.toList.map ofChar)
  | map entries => .ok (entries.map fun entry => text entry.1)
  | v => .error (.type ("'" ++ v.typeName ++ "' object is not iterable"))

end Value

end Stencil
