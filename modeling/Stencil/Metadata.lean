import Stencil.Dict

/-!
# Metadata

What a template knows besides its text: its name, how its output is escaped, the loader it came
from, and global names. Metadata is laid over other metadata where one template inserts another.
-/

namespace Stencil

/-- Metadata with globals of type `α`. A loader is known by its number. -/
structure Metadata (α : Type) where
  name : String
  escape : Option (String → String)
  loader : Option Nat
  globals : List (String × α)
  deriving Inhabited

namespace Metadata

variable {α : Type}

def named (name : String) : Metadata α :=
  ⟨name, none, none, []⟩

/-- Metadata with other metadata laid over it: the other has the say on name and escape, its loader
is taken if it has one, and its globals hide those of the same name. -/
def overlay (base top : Metadata α) : Metadata α :=
  ⟨top.name, top.escape, top.loader.or base.loader, Dict.extend base.globals top.globals⟩

end Metadata

end Stencil
