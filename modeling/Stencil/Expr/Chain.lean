import Stencil.Expr.Basic

/-!
# Chains of operators

Operands between operators, as they are read, and the tree that binding powers make of them. An
operator to the right takes the operand before it from every operator that holds it less tightly
than its own power. Powers grow from `or` to `**`; all operators between operands hold their right
operand by their power, so that equal ones group to the left, save `**`, which groups to the right;
an operator before an operand holds whatever binds at least as tightly as itself.
-/

namespace Stencil

/-- How tightly an operator before an operand binds. -/
def UnaryOp.power : UnaryOp → Nat
  | not => 30
  | negate => 70
  | plus => 70

def BinaryOp.power : BinaryOp → Nat
  | or => 10
  | and => 20
  | within => 40
  | notWithin => 40
  | same => 40
  | notSame => 40
  | eq => 40
  | ne => 40
  | lt => 40
  | le => 40
  | gt => 40
  | ge => 40
  | add => 50
  | sub => 50
  | mul => 60
  | div => 60
  | floorDiv => 60
  | mod => 60
  | pow => 80

/-- An operand after the operators that stand before it, the outermost first. -/
structure Operand where
  signs : List UnaryOp
  value : Expr
  deriving Inhabited

/-- Operands, each but the last followed by an operator. -/
structure Chain where
  links : List (Operand × BinaryOp)
  last : Operand
  deriving Inhabited

/-- An operator whose right operand is still growing. -/
inductive Growing where
  | unary (op : UnaryOp)
  | binary (left : Expr) (op : BinaryOp)

/-- Operators of at most this power take nothing from the operand. -/
def Growing.hold : Growing → Nat
  | unary op => op.power - 1
  | binary _ op => if op = .pow then op.power - 1 else op.power

def Growing.finish (g : Growing) (operand : Expr) : Expr :=
  match g with
  | unary op => .unary op operand
  | binary left op => .binary op left operand

namespace Chain

/-- Completes the operators that an operator of the given power takes nothing from. -/
def settle (power : Nat) : List Growing → Expr → List Growing × Expr
  | [], e => ([], e)
  | g :: gs, e => if g.hold < power then (g :: gs, e) else settle power gs (g.finish e)

def grow (gs : List Growing) (signs : List UnaryOp) : List Growing :=
  signs.foldl (fun gs op => .unary op :: gs) gs

/-- Reads on with the operators growing so far, the innermost first. -/
def treeFrom : List Growing → List (Operand × BinaryOp) → Operand → Expr
  | gs, [], last => (grow gs last.signs).foldl (fun e g => g.finish e) last.value
  | gs, (operand, op) :: links, last =>
    let (gs, left) := settle op.power (grow gs operand.signs) operand.value
    treeFrom (.binary left op :: gs) links last

def tree (c : Chain) : Expr :=
  treeFrom [] c.links c.last

end Chain

end Stencil
