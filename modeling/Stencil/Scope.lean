import Stencil.Value.Basic

/-!
# Scopes

The names an expression sees: the bindings of the render, then the globals of the template, then
the template's own name.
-/

namespace Stencil

def Metadata.get? (m : Metadata Value) (name : String) : Option Value :=
  match Dict.get? name m.globals with
  | some v => some v
  | none => if name = "__name__" then some (.text m.name) else none

/-- Bindings over the metadata of a template. -/
structure Scope where
  bindings : Dict Value
  metadata : Metadata Value
  deriving Inhabited

namespace Scope

def lookup (s : Scope) (name : String) : Option Value :=
  match s.bindings.get? name with
  | some v => some v
  | none => s.metadata.get? name

theorem lookup_eq (s : Scope) (name : String) :
    s.lookup name = (s.bindings.get? name).or (s.metadata.get? name) := by
  unfold lookup
  cases s.bindings.get? name <;> rfl

def bind (s : Scope) (name : String) (v : Value) : Scope :=
  { s with bindings := s.bindings.set name v }

/-- A scope inside another: its own bindings and metadata lie over those around it. -/
def inner (s : Scope) (bindings : Dict Value) (metadata : Metadata Value) : Scope :=
  ⟨s.bindings.extend bindings, s.metadata.overlay metadata⟩

/-- The scope of a template inserted into another: the bindings around it win over its defaults,
its metadata and then the extra metadata lie over that around it. -/
def inserted (s : Scope) (t : Template) (extra : Option (Metadata Value)) : Scope :=
  s.inner (Dict.extend t.defaults s.bindings)
    (match extra with
    | some m => t.metadata.overlay m
    | none => t.metadata)

def ofTemplate (t : Template) (bindings : Dict Value) : Scope :=
  ⟨Dict.extend t.defaults bindings, t.metadata⟩

end Scope

end Stencil
