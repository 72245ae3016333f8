import Stencil.Dict
import Stencil.Disk.Tree
import Stencil.Error

/-!
# Sources

Where the texts of templates come from: texts under names, or the files below a directory. A
directory serves no file outside of it.
-/

namespace Stencil

inductive Source where
  | memory (texts : Dict String)
  | directory (disk : Disk) (root : Path)
  deriving Inhabited

namespace Source

/-- A template name as a path inside a directory: one slash at the front is dropped. -/
def relative (name : String) : Path :=
  match name.toList with
  | '/' :: cs => ⟨String.ofList cs⟩
  | _ => ⟨name⟩

/-- The text of the file of a name, if there is one; names that lead to a file elsewhere are
refused. -/
def readBelow (disk : Disk) (root : Path) (name : String) :
    Except TemplateError (Option String) :=
  match disk.find (root.join (relative name)) with
  | .error _ => .ok none
  | .ok place =>
    match disk.node place, disk.find root with
    | .file content, .ok base =>
      if (Disk.names base).isPrefixOf (Disk.names place) then
        match Disk.decode content with
        | .ok text => .ok (some text)
        | .error fault => .error (.io fault.message)
      else
        .error (.resolution ("Path '" ++ name ++ "' escapes the template directory"))
    | .file _, .error fault =>
      .error (.resolution ("Failed to canonicalize root '" ++ root.text ++ "': " ++ fault.message))
    | .dir _, _ => .ok none

def load (s : Source) (name : String) : Except TemplateError (Option String) :=
  match s with
  | memory texts => .ok (texts.get? name)
  | directory disk root => readBelow disk root name

inductive Change where
  | add (name text : String)
  | remove (name : String)
  | clear

def Change.apply : Change → Dict String → Dict String
  | add name text, texts => texts.set name text
  | remove name, texts => texts.remove name
  | clear, _ => []

/-- Changes the memory source of the given number, counted among the memory sources. -/
def alter (change : Change) : Nat → List Source → List Source
  | _, [] => []
  | 0, memory texts :: rest => memory (change.apply texts) :: rest
  | n + 1, memory texts :: rest => memory texts :: alter change n rest
  | n, s :: rest => s :: alter change n rest

def describe : Source → String
  | memory _ => "__memory__"
  | directory _ root => root.text

end Source

/-- The first text that sources in order have for a name; a source that fails ends the search. -/
def Source.firstText (name : String) : List Source → Except TemplateError (Option String)
  | [] => .ok none
  | s :: rest =>
    match s.load name with
    | .ok none => firstText name rest
    | other => other

end Stencil
