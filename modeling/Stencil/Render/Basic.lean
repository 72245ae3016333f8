import Stencil.Expr.Eval
import Stencil.Loader
import Stencil.Scope

/-!
# Rendering

The execution of segments. Output and bindings that were made before a fault stay. Only insertions
can nest without bound, so their depth is limited; everything else follows the segments.
-/

namespace Stencil

/-- Functions supplied by the host, by name. -/
abbrev Host := String → List Value → Except EvalError Value

/-- What a render changes: the bindings, the pieces of output in order, and the loader that is
alive, if any. At most one is, so that a template that comes from another loader can be inserted but
inserts nothing by name, as if its loader were gone. -/
structure Stage where
  bindings : Dict Value
  output : Array String
  loader : Option Loader
  deriving Inhabited

/-- Why a render stops. A depth that was not enough is no fault of the templates. -/
inductive Halt where
  | failed (e : TemplateError)
  | tooDeep
  deriving Inhabited

/-- An action of a render. The stage is kept when it stops. -/
abbrev Rendering := EStateM Halt Stage

/-- What segments are executed with: the metadata in force, the name of the template they belong
to, the functions of the host, and how a value is inserted. -/
structure Setting where
  name : String
  metadata : Metadata Value
  host : Host
  insert : Metadata Value → Value → Rendering Unit

namespace Rendering

def fail {α : Type} (e : TemplateError) : Rendering α :=
  throw (.failed e)

def ofEval {α : Type} : Except EvalError α → Rendering α
  | .ok a => pure a
  | .error e => fail (.eval e)

def write (text : String) : Rendering Unit :=
  modify fun s => { s with output := s.output.push text }

def bindAll (bindings : List (String × Value)) : Rendering Unit :=
  modify fun s => { s with bindings := s.bindings.extend bindings }

def located (name : String) (line : Nat) (action : Rendering Unit) : Rendering Unit := fun s =>
  match action s with
  | .error (.failed e) s => .error (.failed (e.atRender name line)) s
  | result => result

/-- Runs an action with bindings of its own; those around it come back afterwards. -/
def isolated (bindings : Dict Value) (action : Rendering Unit) : Rendering Unit := fun s =>
  match action { s with bindings } with
  | .ok a t => .ok a { t with bindings := s.bindings }
  | .error e t => .error e { t with bindings := s.bindings }

/-- Runs an action on a copy of the bindings and without output so far, and appends its output
transformed, if it does not stop. -/
def captured (transform : String → String) (action : Rendering Unit) : Rendering Unit := fun s =>
  match action { s with output := #[] } with
  | .ok _ t =>
    .ok () ⟨s.bindings, s.output.push (transform (String.join t.output.toList)), t.loader⟩
  | .error e t => .error e ⟨s.bindings, s.output, t.loader⟩

end Rendering

namespace Setting

def environment (c : Setting) (bindings : Dict Value) : Environment :=
  ⟨Scope.lookup ⟨bindings, c.metadata⟩, c.host⟩

def value (c : Setting) (f : Formula) : Rendering Value := fun s =>
  Rendering.ofEval (f.tree.eval (c.environment s.bindings)) s

def escaped (c : Setting) (v : Value) : String :=
  match c.metadata.escape with
  | some escape => escape v.display
  | none => v.display

end Setting

/-- Bindings of the targets of a loop to the values of an item, each to the one at its place. -/
def unpack (targets : List String) (item : Value) : Except EvalError (List (String × Value)) := do
  let values ← item.iterate
  let expected := Number.naturalText targets.length
  if values.length < targets.length then
    .error (.value ("not enough values to unpack (expected " ++ expected ++ ", got " ++
      Number.naturalText values.length ++ ")"))
  else if targets.length < values.length then
    .error (.value ("too many values to unpack (expected " ++ expected ++ ")"))
  else return targets.zip values

def loopBindings (targets : List String) (unpacks : Bool) (item : Value) :
    Except EvalError (List (String × Value)) :=
  if unpacks then unpack targets item
  else
    match targets with
    | [] => .ok []
    | name :: _ => .ok [(name, item)]

/-- Binds the targets of a loop to an item, all of them or none. -/
def bindTargets (targets : List String) (unpacks : Bool) (item : Value) : Rendering Unit := do
  Rendering.bindAll (← Rendering.ofEval (loopBindings targets unpacks item))

mutual

def Step.run (c : Setting) : Step → Rendering Unit
  | .text content => Rendering.write content
  | .output f => do Rendering.write (c.escaped (← c.value f))
  | .choice clauses none => runClauses c (pure ()) clauses
  | .choice clauses (some body) => runClauses c (runBlock c body) clauses
  | .loop targets unpacks f body => do
    let items ← Rendering.ofEval (← c.value f).iterate
    items.forM fun item => do
      bindTargets targets unpacks item
      runBlock c body
  | .insertion f => do c.insert c.metadata (← c.value f)
  | .captured _ transform body => Rendering.captured transform (runBlock c body)

/-- Executes the block of the first clause whose condition holds, else the fallback. -/
def runClauses (c : Setting) (fallback : Rendering Unit) :
    List (Formula × List (Located Step)) → Rendering Unit
  | [] => fallback
  | (condition, body) :: rest => do
    if (← c.value condition).truthy then runBlock c body else runClauses c fallback rest

/-- Executes segments in order; a fault is attributed to the line of the segment. -/
def runBlock (c : Setting) : List (Located Step) → Rendering Unit
  | [] => pure ()
  | ⟨line, step⟩ :: rest => do
    Rendering.located c.name line (step.run c)
    runBlock c rest

end

/-- The template of a name, from the loader that the metadata refers to if that is the one of the
stage. -/
def loadNamed (m : Metadata Value) (name : String) : Rendering Template := fun s =>
  match s.loader with
  | some l =>
    if m.loader = some l.number then
      match l.load name with
      | (.ok t, l) => .ok t { s with loader := some l }
      | (.error e, l) => .error (.failed e) { s with loader := some l }
    else Rendering.fail (.eval (.value ("Cannot load '" ++ name ++ "' by name"))) s
  | none => Rendering.fail (.eval (.value ("Cannot load '" ++ name ++ "' by name"))) s

def insertedTemplate (m : Metadata Value) : Value → Rendering Template
  | .template t => pure t
  | .text name => loadNamed m name
  | v =>
    Rendering.fail (.eval (.type ("Expected a Template or a str, can not be " ++ v.typeName)))

/-- Executes a template inside a scope; `insert` is how it inserts others. -/
def Compiled.runIn (host : Host) (insert : Metadata Value → Value → Rendering Unit) (t : Template)
    (scope : Scope) : Rendering Unit :=
  Rendering.isolated scope.bindings (runBlock ⟨t.name, scope.metadata, host, insert⟩ t.body)

def Compiled.runInserted (host : Host) (insert : Metadata Value → Value → Rendering Unit)
    (t : Template) (m : Metadata Value) (extra : Option (Metadata Value)) : Rendering Unit :=
  fun s => t.runIn host insert (Scope.inserted ⟨s.bindings, m⟩ t extra) s

/-- Inserts the template that a value stands for, at most `depth` deep. -/
def insertAt (host : Host) : Nat → Metadata Value → Value → Rendering Unit
  | 0, _, _ => throw .tooDeep
  | depth + 1, m, v => do
    let t ← insertedTemplate m v
    t.runInserted host (insertAt host depth) m none

inductive Outcome where
  | output (text : String)
  | failed (e : TemplateError)
  | tooDeep
  deriving Inhabited

/-- Renders a template by itself, insertions at most `depth` deep; gives the loader back. -/
def Compiled.render (host : Host) (depth : Nat) (t : Template) (params : Dict Value)
    (loader : Option Loader) : Outcome × Option Loader :=
  match t.runIn host (insertAt host depth) (.ofTemplate t params) ⟨[], #[], loader⟩ with
  | .ok _ s => (.output (String.join s.output.toList), s.loader)
  | .error (.failed e) s => (.failed e, s.loader)
  | .error .tooDeep s => (.tooDeep, s.loader)

def Loader.render (host : Host) (depth : Nat) (l : Loader) (name : String) (params : Dict Value) :
    Outcome × Option Loader :=
  match l.load name with
  | (.ok t, l) => t.render host depth params (some l)
  | (.error e, l) => (.failed e, some l)

end Stencil
