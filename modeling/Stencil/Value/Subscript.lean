import Stencil.Value.Text

/-!
# Members, subscripts and slices

Sequences are counted from either end. Bounds of a slice are cut off at the ends; an index outside
is a fault.
-/

namespace Stencil.Value

def noMember (v : Value) (name : String) : EvalError :=
  .member ("'" ++ v.typeName ++ "' object has no attribute '" ++ name ++ "'")

/-- The value under a name: a key of a map, or the name of a template. -/
def member (v : Value) (name : String) : Except EvalError Value :=
  match v with
  | map entries =>
    match Dict.get? name entries with
    | some w => .ok w
    | Option.none => .error (noMember v name)
  | template t => if name = "name" then .ok (text t.name) else .error (noMember v name)
  | _ => .error (noMember v name)

/-- The item at a place, which counts from the end if it is negative. -/
def at? {α : Type} (items : List α) (i : Int64) : Option α :=
  let place := if i.toInt < 0 then i.toInt + items.length else i.toInt
  if place < 0 then Option.none else items[place.toNat]?

def notSubscriptable (v : Value) : EvalError :=
  .type ("'" ++ v.typeName ++ "' object is not subscriptable")

def badIndex (v i : Value) : EvalError :=
  .type (v.typeName ++ " indices must be integers, not " ++ i.typeName)

def index (v i : Value) : Except EvalError Value :=
  match v, i with
  | list items, int n =>
    match at? items n with
    | some w => .ok w
    | Option.none => .error (.index "list index out of range")
  | text s, int n =>
    match at? s.toList n with
    | some c => .ok (ofChar c)
    | Option.none => .error (.index "string index out of range")
  | map entries, text key =>
    match Dict.get? key entries with
    | some w => .ok w
    | Option.none => .error (.key i.repr)
  | map _, _ => .error (.key i.repr)
  | list _, _ => .error (badIndex v i)
  | text _, _ => .error (badIndex v i)
  | _, _ => .error (notSubscriptable v)

/-- A bound of a slice as a place between the ends; `none` and the empty value mean the default. -/
def bound (length default : Nat) : Option Value → Except EvalError Nat
  | Option.none => .ok default
  | some none => .ok default
  | some (int i) =>
    .ok (if i.toInt < 0 then (i.toInt + length).toNat else min i.toInt.toNat length)
  | some v =>
    .error (.type ("slice indices must be integers or None, not " ++ v.typeName))

/-- Where a slice begins and where it ends, which is not before it begins. -/
def sliceBounds (length : Nat) (lower upper : Option Value) : Except EvalError (Nat × Nat) := do
  let start ← bound length 0 lower
  let stop ← bound length length upper
  return (start, max stop start)

def sliceItems {α : Type} (items : List α) (lower upper : Option Value) :
    Except EvalError (List α) := do
  let (start, stop) ← sliceBounds items.length lower upper
  return (items.take stop).drop start

def slice (v : Value) (lower upper : Option Value) : Except EvalError Value :=
  match v with
  | list items => (sliceItems items lower upper).map list
  | text s => (sliceItems s.toList lower upper).map fun cs => text (String.ofList cs)
  | _ => .error (notSubscriptable v)

end Stencil.Value
