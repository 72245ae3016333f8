import Stencil.Path

/-!
# Directory trees

Files and directories as they are found by a path: part by part, from the root or from the current
directory.
-/

namespace Stencil

/-- A file with its bytes, or a directory with its entries. -/
inductive Node where
  | file (content : ByteArray)
  | dir (entries : List (String × Node))
  deriving Inhabited

namespace Node

/-- The entries of a directory; a file has none. -/
def entries : Node → List (String × Node)
  | file _ => []
  | dir entries => entries

def alter (name : String) (f : Option Node → Node) : List (String × Node) → List (String × Node)
  | [] => [(name, f none)]
  | (k, n) :: rest => if k = name then (k, f (some n)) :: rest else (k, n) :: alter name f rest

/-- A tree with a node put where names lead to, with the directories on the way. -/
def put (node : Node) : List String → Option Node → Node
  | [], _ => node
  | name :: names, around =>
    dir (alter name (put node names) (around.elim [] entries))

end Node

inductive ReadFault where
  | missing
  | notDirectory
  | isDirectory
  | notText
  deriving DecidableEq, Inhabited

def ReadFault.message : ReadFault → String
  | missing => "No such file or directory (os error 2)"
  | notDirectory => "Not a directory (os error 20)"
  | isDirectory => "Is a directory (os error 21)"
  | notText => "stream did not contain valid UTF-8"

/-- A tree and the current directory in it, by names from the root. -/
structure Disk where
  root : Node
  current : List String
  deriving Inhabited

/-- A place in a tree: the names and nodes on the way to it, the last first. -/
abbrev Place := List (String × Node)

namespace Disk

def node (d : Disk) : Place → Node
  | [] => d.root
  | (_, n) :: _ => n

def names (p : Place) : List String :=
  (p.map (·.1)).reverse

/-- Goes on by one part of a path, which needs a directory. -/
def enter (d : Disk) (p : Place) (part : String) : Except ReadFault Place :=
  match d.node p with
  | .file _ => .error .notDirectory
  | .dir entries =>
    if !Path.isPart part then .ok p
    else if part = ".." then .ok p.tail
    else
      match entries.lookup part with
      | some n => .ok ((part, n) :: p)
      | none => .error .missing

/-- The place that a path leads to. An empty path leads nowhere. -/
def find (d : Disk) (path : Path) : Except ReadFault Place := do
  if path.text.isEmpty then .error .missing
  else if path.isAbsolute then path.rawParts.tail.foldlM d.enter []
  else path.rawParts.foldlM d.enter (← d.current.foldlM d.enter [])

def pathExists (d : Disk) (path : Path) : Bool :=
  match d.find path with
  | .ok _ => true
  | .error _ => false

/-- The entries of the directory that a path leads to. -/
def dir? (d : Disk) (path : Path) : Option (List (String × Node)) :=
  match d.find path with
  | .ok p =>
    match d.node p with
    | .dir entries => some entries
    | .file _ => none
  | .error _ => none

def isFile (d : Disk) (path : Path) : Bool :=
  match d.find path with
  | .ok p =>
    match d.node p with
    | .file _ => true
    | .dir _ => false
  | .error _ => false

def decode (content : ByteArray) : Except ReadFault String :=
  match String.fromUTF8? content with
  | some s => .ok s
  | none => .error .notText

def readText (d : Disk) (path : Path) : Except ReadFault String := do
  match d.node (← d.find path) with
  | .file content => decode content
  | .dir _ => .error .isDirectory

def currentPath (d : Disk) : Path :=
  ⟨"/" ++ "/".intercalate d.current⟩

end Disk

end Stencil
