import Stencil.Render.Basic
import Stencil.Text.Visible

/-!
# Canvases

Contexts, each with a scope of its own and a buffer that it may share. A context made inside another
copies the bindings there and writes to the same buffer.
-/

namespace Stencil

/-- A scope, and the number of the buffer that is written to through it. -/
structure Context where
  scope : Scope
  buffer : Nat
  deriving Inhabited

/-- Contexts in the order of their creation, the pieces in every buffer, and the loader that is
alive, if any. -/
structure Canvas where
  contexts : List Context
  buffers : List (Array String)
  loader : Option Loader
  deriving Inhabited

namespace Canvas

def start (s : Scope) (loader : Option Loader) : Canvas :=
  ⟨[⟨s, 0⟩], [#[]], loader⟩

def pieces (c : Canvas) (x : Context) : Array String :=
  c.buffers.getD x.buffer #[]

def text (c : Canvas) (x : Context) : String :=
  String.join (c.pieces x).toList

def fill (c : Canvas) (x : Context) (pieces : Array String) : Canvas :=
  { c with buffers := c.buffers.set x.buffer pieces }

def write (c : Canvas) (x : Context) (piece : String) : Canvas :=
  c.fill x ((c.pieces x).push piece)

def bind (c : Canvas) (i : Nat) (name : String) (v : Value) : Canvas :=
  { c with contexts := c.contexts.modify i fun x => { x with scope := x.scope.bind name v } }

def lookup (c : Canvas) (i : Nat) (name : String) : Option Value :=
  c.contexts[i]?.bind fun x => x.scope.lookup name

def evaluate (host : Host) (x : Context) (f : Formula) : Except EvalError Value :=
  f.tree.eval ⟨x.scope.lookup, host⟩

def grow (c : Canvas) (x : Context) (bindings : Dict Value) (m : Metadata Value) : Canvas :=
  { c with contexts := c.contexts ++ [⟨x.scope.inner bindings m, x.buffer⟩] }

/-- Inserts a template into a context; gives the reason if that stops. -/
def insert (host : Host) (depth : Nat) (c : Canvas) (x : Context) (t : Template)
    (extra : Option (Metadata Value)) : Option Halt × Canvas :=
  match t.runIn host (insertAt host depth) (x.scope.inserted t extra)
      ⟨[], c.pieces x, c.loader⟩ with
  | .ok _ s => (none, { c.fill x s.output with loader := s.loader })
  | .error halt s => (some halt, { c.fill x s.output with loader := s.loader })

/-- The bindings of a context and the pieces in its buffer, for diagnostics. -/
def describe (c : Canvas) (x : Context) : String :=
  let shown := x.scope.bindings.map fun entry => entry.1 ++ "=" ++ entry.2.repr
  "params: \x7b" ++ ", ".intercalate (shown.mergeSort fun a b => decide (a ≤ b)) ++
    "\x7d, buffer: [" ++ ", ".intercalate ((c.pieces x).toList.map Text.visible) ++ "]"

end Canvas

end Stencil
