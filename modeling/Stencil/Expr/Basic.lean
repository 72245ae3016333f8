/-!
# Expressions

The trees of the expressions in tags and block headers.
-/

namespace Stencil

inductive Literal where
  | none
  | bool (b : Bool)
  | int (i : Int64)
  | real (x : Float)
  | text (s : String)
  deriving Inhabited

inductive UnaryOp where
  | negate
  | plus
  | not
  deriving DecidableEq, Inhabited

inductive BinaryOp where
  | or
  | and
  | within
  | notWithin
  | same
  | notSame
  | eq
  | ne
  | lt
  | le
  | gt
  | ge
  | add
  | sub
  | mul
  | div
  | floorDiv
  | mod
  | pow
  deriving DecidableEq, Inhabited

def UnaryOp.symbol : UnaryOp → String
  | negate => "-"
  | plus => "+"
  | not => "not"

def BinaryOp.symbol : BinaryOp → String
  | or => "or"
  | and => "and"
  | within => "in"
  | notWithin => "not in"
  | same => "is"
  | notSame => "is not"
  | eq => "=="
  | ne => "!="
  | lt => "<"
  | le => "<="
  | gt => ">"
  | ge => ">="
  | add => "+"
  | sub => "-"
  | mul => "*"
  | div => "/"
  | floorDiv => "//"
  | mod => "%"
  | pow => "**"

/-- An expression. Tuples are lists, and a slice may leave out either bound. -/
inductive Expr where
  | literal (value : Literal)
  | name (name : String)
  | list (items : List Expr)
  | dict (entries : List (Expr × Expr))
  | member (target : Expr) (name : String)
  | index (target index : Expr)
  | slice (target : Expr) (lower upper : Option Expr)
  | call (callee : Expr) (args : List Expr)
  | unary (op : UnaryOp) (operand : Expr)
  | binary (op : BinaryOp) (left right : Expr)
  | choice (condition value otherwise : Expr)
  deriving Inhabited

end Stencil
