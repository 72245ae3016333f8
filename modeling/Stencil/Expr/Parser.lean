import Stencil.Error
import Stencil.Expr.Chain
import Stencil.Expr.Lexeme

/-!
# Reading expressions

One step per lexeme over a stack of the constructs begun so far. The grammar is predictive: a
lexeme is refused exactly when no expression goes on with it, so the column of a refused lexeme is
the column of the error.
-/

namespace Stencil

namespace Expr

/-- The part of a chain before the operand that is being read, the latest first. -/
structure Pending where
  links : List (Operand × BinaryOp)
  signs : List UnaryOp
  deriving Inhabited

def Pending.start : Pending :=
  ⟨[], []⟩

def Pending.isStart (p : Pending) : Bool :=
  p.links.isEmpty && p.signs.isEmpty

/-- The operand that completes the signs read so far. -/
def Pending.operand (p : Pending) (e : Expr) : Operand :=
  ⟨p.signs.reverse, e⟩

def Pending.close (p : Pending) (e : Expr) : Expr :=
  Chain.tree ⟨p.links.reverse, p.operand e⟩

/-- A construct begun, with the chain around it and what it holds so far, the latest first. -/
inductive Hole where
  | group (outer : Pending)
  | tuple (outer : Pending) (items : List Expr)
  | list (outer : Pending) (items : List Expr)
  | args (outer : Pending) (callee : Expr) (items : List Expr)
  | key (outer : Pending) (entries : List (Expr × Expr))
  | value (outer : Pending) (entries : List (Expr × Expr)) (key : Expr)
  | subscript (outer : Pending) (target : Expr)
  | upper (outer : Pending) (target : Expr) (lower : Option Expr)
  /-- Between `if` and `else`. -/
  | condition (value : Expr)
  /-- After `else`. -/
  | otherwise (value condition : Expr)

/-- What the next lexeme has to do with. -/
inductive Focus where
  | operand
  | after (operand : Expr)
  | member (target : Expr)

structure Reading where
  holes : List Hole
  pending : Pending
  focus : Focus

def Reading.start : Reading :=
  ⟨[], .start, .operand⟩

namespace Reading

def descend (holes : List Hole) : Reading :=
  ⟨holes, .start, .operand⟩

/-- Ends a construct: its tree is an operand of the chain around it. -/
def ascend (holes : List Hole) (outer : Pending) (e : Expr) : Reading :=
  ⟨holes, outer, .after e⟩

/-- Ends the conditionals whose last branch is complete. Nothing ends a condition but `else`. -/
def settle : List Hole → Expr → Option (List Hole × Expr)
  | .otherwise value condition :: holes, e => settle holes (.choice condition value e)
  | .condition _ :: _, _ => none
  | holes, e => some (holes, e)

/-- A sign or an operand where an operand is expected, else nothing. -/
def beginOperand (holes : List Hole) (p : Pending) : Lexeme → Option Reading
  | .literal v => some ⟨holes, p, .after (.literal v)⟩
  | .oversized _ => some ⟨holes, p, .after (.literal .none)⟩
  | .name n => some ⟨holes, p, .after (.name n)⟩
  | .plus => some ⟨holes, { p with signs := .plus :: p.signs }, .operand⟩
  | .minus => some ⟨holes, { p with signs := .negate :: p.signs }, .operand⟩
  | .not => some ⟨holes, { p with signs := .not :: p.signs }, .operand⟩
  | .openParen => some (descend (.group p :: holes))
  | .openSquare => some (descend (.list p [] :: holes))
  | .openBrace => some (descend (.key p [] :: holes))
  | _ => none

/-- A lexeme that may stand where an expression could begin but does not have to. -/
def endEmpty : List Hole → Lexeme → Option Reading
  | .group outer :: holes, .closeParen => some (ascend holes outer (.list []))
  | .tuple outer items :: holes, .closeParen => some (ascend holes outer (.list items.reverse))
  | .args outer callee items :: holes, .closeParen =>
    some (ascend holes outer (.call callee items.reverse))
  | .list outer items :: holes, .closeSquare => some (ascend holes outer (.list items.reverse))
  | .upper outer target lower :: holes, .closeSquare =>
    some (ascend holes outer (.slice target lower none))
  | .key outer entries :: holes, .closeBrace =>
    some (ascend holes outer (.dict entries.reverse))
  | .subscript outer target :: holes, .colon => some (descend (.upper outer target none :: holes))
  | _, _ => none

def endItem (e : Expr) : List Hole → Lexeme → Option Reading
  | .group outer :: holes, .closeParen => some (ascend holes outer e)
  | .group outer :: holes, .comma => some (descend (.tuple outer [e] :: holes))
  | .tuple outer items :: holes, .closeParen =>
    some (ascend holes outer (.list (e :: items).reverse))
  | .tuple outer items :: holes, .comma => some (descend (.tuple outer (e :: items) :: holes))
  | .list outer items :: holes, .closeSquare =>
    some (ascend holes outer (.list (e :: items).reverse))
  | .list outer items :: holes, .comma => some (descend (.list outer (e :: items) :: holes))
  | .args outer callee items :: holes, .closeParen =>
    some (ascend holes outer (.call callee (e :: items).reverse))
  | .args outer callee items :: holes, .comma =>
    some (descend (.args outer callee (e :: items) :: holes))
  | .key outer entries :: holes, .colon => some (descend (.value outer entries e :: holes))
  | .value outer entries key :: holes, .closeBrace =>
    some (ascend holes outer (.dict ((key, e) :: entries).reverse))
  | .value outer entries key :: holes, .comma =>
    some (descend (.key outer ((key, e) :: entries) :: holes))
  | .subscript outer target :: holes, .closeSquare => some (ascend holes outer (.index target e))
  | .subscript outer target :: holes, .colon =>
    some (descend (.upper outer target (some e) :: holes))
  | .upper outer target lower :: holes, .closeSquare =>
    some (ascend holes outer (.slice target lower (some e)))
  | _, _ => none

def operator? : Lexeme → Option BinaryOp
  | .between op => some op
  | .plus => some .add
  | .minus => some .sub
  | .notWithin _ => some .notWithin
  | _ => none

def afterOperand (holes : List Hole) (p : Pending) (e : Expr) (l : Lexeme) : Option Reading :=
  match operator? l with
  | some op => some ⟨holes, ⟨(p.operand e, op) :: p.links, []⟩, .operand⟩
  | none =>
    match l, holes with
    | .openParen, _ => some (descend (.args p e [] :: holes))
    | .openSquare, _ => some (descend (.subscript p e :: holes))
    | .dot, _ => some ⟨holes, p, .member e⟩
    | .ifWord, .condition _ :: _ => none
    | .ifWord, _ => some (descend (.condition (p.close e) :: holes))
    | .elseWord, .condition value :: holes => some (descend (.otherwise value (p.close e) :: holes))
    | l, holes =>
      match settle holes (p.close e) with
      | some (holes, e) => endItem e holes l
      | none => none

/-- Reads one lexeme, or gives the place at which the text cannot go on. The word `not` of a
`not in` is a sign where an operand is expected, and then the word `in` is refused. -/
def step (r : Reading) (lexeme : Lexeme × Nat) : Except Nat Reading :=
  let next : Option Reading :=
    match r.focus with
    | .operand =>
      match beginOperand r.holes r.pending lexeme.1 with
      | some r => some r
      | none => if r.pending.isStart then endEmpty r.holes lexeme.1 else none
    | .after e => afterOperand r.holes r.pending e lexeme.1
    | .member target =>
      match lexeme.1 with
      | .name n => some ⟨r.holes, r.pending, .after (.member target n)⟩
      | _ => none
  match next with
  | some r => .ok r
  | none =>
    match r.focus, lexeme.1 with
    | .operand, .notWithin second => .error second
    | _, _ => .error lexeme.2

def finish? (r : Reading) : Option Expr :=
  match r.focus with
  | .after e =>
    match settle r.holes (r.pending.close e) with
    | some ([], e) => some e
    | _ => none
  | _ => none

end Reading

def ofLexemes (lexemes : List (Lexeme × Nat)) (ending : Nat) : Except Nat Expr := do
  let r ← lexemes.foldlM Reading.step .start
  match r.finish? with
  | some e => .ok e
  | none => .error ending

def oversized? (lexemes : List (Lexeme × Nat)) : Option String :=
  lexemes.findSome? fun
    | (.oversized digits, _) => some digits
    | _ => none

/-- Reads an expression. Only a text that is an expression in form is refused for its integers. -/
def parse (text : String) : Except SyntaxError Expr :=
  let cs := text.toList
  let lexemes := Lexeme.scan cs
  match ofLexemes lexemes cs.length with
  | .error place => .error (.expression text (column cs place))
  | .ok e =>
    match oversized? lexemes with
    | some digits => .error (.oversizedInteger digits)
    | none => .ok e

end Expr

/-- An expression together with the text it was read from. -/
structure Formula where
  source : String
  tree : Expr
  deriving Inhabited

def Formula.parse (text : String) : Except SyntaxError Formula :=
  return ⟨text, ← Expr.parse text⟩

end Stencil
