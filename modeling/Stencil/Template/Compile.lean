import Stencil.Escape
import Stencil.Template.Assembly
import Stencil.Value.Basic

/-!
# Compiling

A source made into a template. Every fault names the template and the line and shows the lines
around it.
-/

namespace Stencil

/-- How templates are written and escaped. -/
structure Dialect where
  delimiters : Delimiters
  builtins : Bool
  custom : List CustomTag
  escapes : EscapeTable
  deriving Inhabited

namespace Dialect

def standard : Dialect :=
  ⟨.standard, true, [], .standard⟩

def tokens (d : Dialect) (source : String) : List Token :=
  Token.scan d.delimiters source

def assemble (d : Dialect) (source name : String) : Except TemplateError Block :=
  match Assembly.ofTokens d.builtins d.custom (d.tokens source) with
  | .ok body => .ok body
  | .error (fault, line) =>
    .error (((TemplateError.malformed fault).atCompile name line).withSource source)

/-- The metadata of a template of the given name: the escape function goes by the extension unless
there is one already. -/
def metadata (d : Dialect) (name : String) (m : Metadata Value) : Metadata Value :=
  { m with name := name, escape := m.escape.or (d.escapes.forName name) }

def compile (d : Dialect) (source name : String) (defaults : Dict Value) (m : Metadata Value)
    (serial : Nat) : Except TemplateError Template := do
  return ⟨← d.assemble source name, defaults, d.metadata name m, serial⟩

end Dialect

/-- The name of a template that was given as a text only. -/
def stringName : String :=
  "__string__"

end Stencil
