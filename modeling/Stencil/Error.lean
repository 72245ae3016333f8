import Stencil.Number.Integer
import Stencil.Snippet

/-!
# Errors

What can go wrong, by cause, and the wording of each cause. An error of compiling or rendering is
attributed once, to the innermost template and line it arose in.
-/

namespace Stencil

inductive EvalError where
  | undefinedName (name : String)
  | type (message : String)
  | value (message : String)
  | index (message : String)
  | key (shown : String)
  | member (message : String)
  | zeroDivision
  | overflow
  deriving DecidableEq, Inhabited

def EvalError.message : EvalError → String
  | undefinedName name => "name '" ++ name ++ "' is not defined"
  | type message => message
  | value message => message
  | index message => message
  | key shown => "key " ++ shown ++ " not found"
  | member message => message
  | zeroDivision => "division by zero"
  | overflow => "integer overflow"

inductive SyntaxError where
  /-- No expression goes on as the text does at the column. -/
  | expression (text : String) (column : Nat)
  | oversizedInteger (digits : String)
  /-- A tag outside every block that no construct knows. -/
  | unknownTag (tag : String)
  /-- A tag inside a block that no construct knows and that does not belong to the block. -/
  | strayTag (tag : String)
  | unclosed (tag ending : String)
  | branchAfterElse
  | secondElse
  /-- A fault in words of its own. -/
  | other (message : String)
  deriving DecidableEq, Inhabited

/-- The wording of a fault of template text. What the grammar expects at a column is added by the
parser generator in words of its own, which are left out. -/
def SyntaxError.message : SyntaxError → String
  | expression text column =>
    "invalid syntax in `" ++ text ++ "` at column " ++ Number.naturalText column
  | oversizedInteger digits => "integer literal too large: " ++ digits
  | unknownTag tag => "\x7b% " ++ tag ++ " %\x7d is not a recognized tag."
  | strayTag tag => tag ++ " is not a recognized tag"
  | unclosed tag ending => tag ++ " tag could not find a corresponding " ++ ending
  | branchAfterElse => "elif tag cannot come after else"
  | secondElse => "Only one else tag is allowed per if"
  | other message => message

/-- Everything that compiling, loading and rendering report. -/
inductive TemplateError where
  | compile (message name : String) (line : Nat) (snippet : Option Snippet)
  | render (message name : String) (line : Nat)
  | notFound (name : String)
  | malformed (fault : SyntaxError)
  | eval (fault : EvalError)
  | resolution (message : String)
  | io (message : String)
  | cache (message : String)
  deriving DecidableEq, Inhabited

namespace TemplateError

def located (message name : String) (line : Nat) : String :=
  message ++ " [" ++ name ++ " on line " ++ Number.naturalText line ++ "]"

def display : TemplateError → String
  | compile message name line none => located message name line
  | compile message name line (some snippet) =>
    located message name line ++ "\n" ++ snippet.text
  | render message name line => located message name line
  | notFound name => "could not find template '" ++ name ++ "'"
  | malformed fault => fault.message
  | eval fault => fault.message
  | resolution message => "Resolution error: " ++ message
  | io message => "IO error: " ++ message
  | cache message => "Cache error: " ++ message

/-- Attributes an error to a line of a template being compiled, unless that was done before. -/
def atCompile (name : String) (line : Nat) : TemplateError → TemplateError
  | compile message name line snippet => compile message name line snippet
  | e => compile e.display name line none

/-- Attributes an error to a line of a template being rendered, unless that was done before. -/
def atRender (name : String) (line : Nat) : TemplateError → TemplateError
  | render message name line => render message name line
  | e => render e.display name line

/-- Adds the snippet of a source to a compile error that has none. -/
def withSource (source : String) : TemplateError → TemplateError
  | compile message name line none => compile message name line (some (.around source line))
  | e => e

def line? : TemplateError → Option Nat
  | compile _ _ line _ => some line
  | render _ _ line => some line
  | _ => none

end TemplateError

end Stencil
