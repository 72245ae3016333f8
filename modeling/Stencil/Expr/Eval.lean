import Stencil.Value.Method

/-!
# Evaluation

The value of an expression. Operands are evaluated from left to right, arguments before what is
called, and a conditional or `and` and `or` only as far as needed.
-/

namespace Stencil

/-- What expressions depend on: the names in scope and the functions of the host. -/
structure Environment where
  lookup : String → Option Value
  host : String → List Value → Except EvalError Value

def Function.call (host : String → List Value → Except EvalError Value) (f : Function)
    (args : List Value) : Except EvalError Value :=
  match f with
  | .builtin b => b.call args
  | .host name _ => host name args

namespace Environment

/-- The value of a name: in scope, else a builtin function. -/
def resolve (env : Environment) (name : String) : Except EvalError Value :=
  match env.lookup name with
  | some v => .ok v
  | none =>
    match Builtin.ofName? name with
    | some b => .ok (.function (.builtin b))
    | none => .error (.undefinedName name)

def call (env : Environment) (callee : Value) (args : List Value) : Except EvalError Value :=
  match callee with
  | .function f => f.call env.host args
  | v => .error (.type ("'" ++ v.typeName ++ "' object is not callable"))

/-- Calls a member of a value: a function kept in a map, else a method. -/
def callMember (env : Environment) (target : Value) (name : String) (args : List Value) :
    Except EvalError Value :=
  match target with
  | .map entries =>
    match Dict.get? name entries with
    | some (.function f) => f.call env.host args
    | _ => target.method name args
  | _ => target.method name args

end Environment

/-- A key of a map, which has to be a text. -/
def Value.key : Value → Except EvalError String
  | .text s => .ok s
  | v => .error (.type ("dict keys must be str, not " ++ v.typeName))

namespace Expr

mutual

def eval (env : Environment) : Expr → Except EvalError Value
  | literal v => .ok (.ofLiteral v)
  | name n => env.resolve n
  | list items => do return .list (← evalItems env items)
  | dict entries => do return .map (← evalEntries env [] entries)
  | member target n => do (← eval env target).member n
  | index target i => do
    let v ← eval env target
    v.index (← eval env i)
  | slice target lower upper => do
    let v ← eval env target
    let lower ← evalBound env lower
    v.slice lower (← evalBound env upper)
  | call (member target n) args => do
    let args ← evalItems env args
    env.callMember (← eval env target) n args
  | call callee args => do
    let args ← evalItems env args
    env.call (← eval env callee) args
  | unary op e => do Value.unary op (← eval env e)
  | binary .and left right => do
    let v ← eval env left
    if v.truthy then eval env right else return v
  | binary .or left right => do
    let v ← eval env left
    if v.truthy then return v else eval env right
  | binary op left right => do
    let v ← eval env left
    Value.binary op v (← eval env right)
  | choice condition value otherwise => do
    if (← eval env condition).truthy then eval env value else eval env otherwise

def evalItems (env : Environment) : List Expr → Except EvalError (List Value)
  | [] => .ok []
  | e :: es => do
    let v ← eval env e
    return v :: (← evalItems env es)

def evalBound (env : Environment) : Option Expr → Except EvalError (Option Value)
  | none => .ok none
  | some e => do return some (← eval env e)

def evalEntries (env : Environment) (done : Dict Value) :
    List (Expr × Expr) → Except EvalError (Dict Value)
  | [] => .ok done
  | (k, e) :: rest => do
    let key ← (← eval env k).key
    let v ← eval env e
    evalEntries env (done.set key v) rest

end

end Expr

end Stencil
