import Stencil.Number.Integer
import Stencil.Text.Search
import Stencil.Value.Order

/-!
# Operators on values

Arithmetic is exact within 64 bits and an overflow otherwise; quotients of integers are floored.
-/

namespace Stencil.Value

/-- The fault of an operator that the types of its operands do not have. -/
def unsupported (op : BinaryOp) (a b : Value) : EvalError :=
  .type ("unsupported operand type(s) for " ++ op.symbol ++ ": '" ++ a.typeName ++ "' and '" ++
    b.typeName ++ "'")

def fitted : Option Int64 → Except EvalError Value
  | some i => .ok (int i)
  | Option.none => .error .overflow

/-- Arithmetic on integers. A negative exponent gives a real number. -/
def integerArithmetic (op : BinaryOp) (a b : Int64) : Except EvalError Value :=
  match op with
  | .add => fitted (Number.fit? (a.toInt + b.toInt))
  | .sub => fitted (Number.fit? (a.toInt - b.toInt))
  | .mul => fitted (Number.fit? (a.toInt * b.toInt))
  | .div => if b = 0 then .error .zeroDivision else .ok (real (a.toFloat / b.toFloat))
  | .floorDiv => if b = 0 then .error .zeroDivision else fitted (Number.floorDiv? a b)
  | .mod => if b = 0 then .error .zeroDivision else fitted (Number.floorMod? a b)
  | .pow =>
    if b.toInt < 0 then
      if a = 0 then .error .zeroDivision else .ok (real (a.toFloat ^ b.toFloat))
    else fitted (Number.power? a b)
  | _ => .error .overflow

def realArithmetic (op : BinaryOp) (a b : Float) : Except EvalError Float :=
  match op with
  | .add => .ok (a + b)
  | .sub => .ok (a - b)
  | .mul => .ok (a * b)
  | .div => if b == 0 then .error .zeroDivision else .ok (a / b)
  | .floorDiv => if b == 0 then .error .zeroDivision else .ok (a / b).floor
  | .mod => if b == 0 then .error .zeroDivision else .ok (a - b * (a / b).floor)
  | .pow => if a == 0 && b < 0 then .error .zeroDivision else .ok (a ^ b)
  | _ => .error .overflow

def arithmetic (op : BinaryOp) (a b : Value) : Except EvalError Value :=
  match a.number?, b.number? with
  | some (.int x), some (.int y) => integerArithmetic op x y
  | some x, some y => (realArithmetic op x.toFloat y.toFloat).map real
  | _, _ => .error (unsupported op a b)

/-- No more bytes than this can be addressed. -/
def addressable : Nat := 0x7FFFFFFFFFFFFFFF

/-- How often a sequence is repeated: never if it is empty or the number negative. More than the
addressable bytes are an overflow. -/
def repetitions (n : Int64) (length itemBytes : Nat) : Except EvalError Nat :=
  let count := n.toInt.toNat
  if length = 0 then .ok 0
  else if count * length * itemBytes ≤ addressable then .ok count
  else .error .overflow

def itemBytes : Nat := 72

def repeatText (s : String) (n : Int64) : Except EvalError Value :=
  (repetitions n s.utf8ByteSize 1).map fun count => text (String.join (List.replicate count s))

def repeatList (items : List Value) (n : Int64) : Except EvalError Value :=
  (repetitions n items.length itemBytes).map fun count => list (List.replicate count items).flatten

/-- Whether a container holds a value: a text a part, a list an item, a map a key. -/
def contains (container item : Value) : Except EvalError Bool :=
  match container with
  | text whole =>
    match item with
    | text part => .ok (Text.occurs part.toList whole.toList)
    | v =>
      .error (.type ("'in <string>' requires string as left operand, not " ++ v.typeName))
  | list items => .ok (items.any fun v => v.equal item)
  | map entries =>
    match item with
    | text key => .ok (Dict.has key entries)
    | _ => .ok false
  | v => .error (.type ("argument of type '" ++ v.typeName ++ "' is not iterable"))

def binary (op : BinaryOp) (a b : Value) : Except EvalError Value :=
  match op with
  | .or => .ok (if a.truthy then a else b)
  | .and => .ok (if a.truthy then b else a)
  | .eq => .ok (bool (a.equal b))
  | .ne => .ok (bool (!a.equal b))
  | .lt => (a.order b).map fun o => bool (o == .lt)
  | .le => (a.order b).map fun o => bool (o != .gt)
  | .gt => (a.order b).map fun o => bool (o == .gt)
  | .ge => (a.order b).map fun o => bool (o != .lt)
  | .within => (contains b a).map bool
  | .notWithin => (contains b a).map fun found => bool (!found)
  | .same => .ok (bool (a.same b))
  | .notSame => .ok (bool (!a.same b))
  | .add =>
    match a, b with
    | text x, text y => .ok (text (x ++ y))
    | list x, list y => .ok (list (x ++ y))
    | _, _ => arithmetic op a b
  | .mul =>
    match a, b with
    | text s, int n => repeatText s n
    | int n, text s => repeatText s n
    | list items, int n => repeatList items n
    | int n, list items => repeatList items n
    | _, _ => arithmetic op a b
  | _ => arithmetic op a b

def badOperand (op : UnaryOp) (v : Value) : EvalError :=
  .type ("bad operand type for unary " ++ op.symbol ++ ": '" ++ v.typeName ++ "'")

def unary (op : UnaryOp) (v : Value) : Except EvalError Value :=
  match op with
  | .not => .ok (bool (!v.truthy))
  | .plus =>
    match v.number? with
    | some (.int i) => .ok (int i)
    | some (.real x) => .ok (real x)
    | Option.none => .error (badOperand op v)
  | .negate =>
    match v.number? with
    | some (.int i) => fitted (Number.fit? (-i.toInt))
    | some (.real x) => .ok (real (-x))
    | Option.none => .error (badOperand op v)

end Stencil.Value
