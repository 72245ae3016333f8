import Stencil.Project.Command

/-!
# The command line

Reads the files a command needs into a directory tree, runs the command on the tree, and prints.
-/

namespace Stencil.Main

inductive Command where
  | render (name : String) (json : Option String) (file : Option String)
  | check (names : List String)
  | tokens (name : String)

structure Arguments where
  config : Option String
  json : Option String
  file : Option String
  rest : List String

/-- Reads options anywhere among the arguments. -/
def Arguments.read? (a : Arguments) : List String → Option Arguments
  | [] => some { a with rest := a.rest.reverse }
  | "-c" :: path :: more => read? { a with config := some path } more
  | "--config" :: path :: more => read? { a with config := some path } more
  | "-p" :: json :: more => read? { a with json := some json } more
  | "--params" :: json :: more => read? { a with json := some json } more
  | "--params-file" :: path :: more => read? { a with file := some path } more
  | "--log-level" :: _ :: more => read? a more
  | arg :: more => if arg.startsWith "-" then none else read? { a with rest := arg :: a.rest } more

def Arguments.command? (a : Arguments) : Option Command :=
  match a.rest with
  | ["render", name] => some (.render name a.json a.file)
  | "check" :: names => some (.check names)
  | ["tokens", name] => some (.tokens name)
  | _ => none

def usage : String :=
  "usage: stencil [-c FILE] render NAME [-p JSON] [--params-file FILE]\n" ++
    "       stencil [-c FILE] check [NAME...]\n       stencil [-c FILE] tokens NAME"

/-- The names on the way to a path from the root, dots resolved. -/
def locate (current : List String) (path : Path) : List String :=
  let start := if path.isAbsolute then [] else current.reverse
  let step (done : List String) (part : String) := if part = ".." then done.tail else part :: done
  (path.parts.foldl step start).reverse

def place (disk : Disk) (path : Path) (node : Node) : Disk :=
  { disk with root := node.put (locate disk.current path) (some disk.root) }

/-- Reads a file into the tree, if it is there. -/
def addFile (disk : Disk) (path : Path) : IO Disk := do
  match ← (IO.FS.readBinFile path.text).toBaseIO with
  | .ok content => return place disk path (.file content)
  | .error _ => return disk

/-- Reads what is at a path, directories with everything below them. -/
partial def readNode (path : Path) : IO (Option Node) := do
  let here := (← IO.currentDir) / path.text
  if ← here.isDir then
    let mut entries := []
    for entry in ← here.readDir do
      if let some node ← readNode (path.join ⟨entry.fileName⟩) then
        entries := (entry.fileName, node) :: entries
    return some (.dir entries)
  else
    match ← (IO.FS.readBinFile here).toBaseIO with
    | .ok content => return some (.file content)
    | .error _ => return none

def addTemplates (disk : Disk) (config : Config) : IO Disk :=
  config.templateDirs.foldlM (fun disk dir => do
    match ← readNode dir with
    | some node => return place disk dir node
    | none => return disk) disk

def run (config : Config) (disk : Disk) : Command → Report
  | .render name json file => config.render disk name json (file.map Path.mk)
  | .check names => config.check disk names
  | .tokens name => config.tokens disk name

def execute (a : Arguments) (command : Command) : IO UInt32 := do
  let current := (Path.mk (← IO.currentDir).toString).parts
  let empty : Disk := ⟨(Node.dir []).put current none, current⟩
  let disk ← addFile empty ⟨a.config.getD Config.fileName⟩
  match Config.load disk (a.config.map Path.mk) with
  | .error (.unreadable path fault) =>
    IO.eprintln ("Error: " ++ Config.unreadable path fault)
    return 1
  | .error .malformed =>
    IO.eprintln "Error: malformed configuration"
    return 1
  | .ok config =>
    let disk ← addTemplates disk config
    let disk ←
      match a.file with
      | some file => addFile disk ⟨file⟩
      | none => pure disk
    let report := run config disk command
    IO.print report.printed
    match report.fault with
    | none => return 0
    | some fault =>
      IO.eprintln ("Error: " ++ fault.message)
      return 1

end Stencil.Main

def main (args : List String) : IO UInt32 := do
  match Stencil.Main.Arguments.read? ⟨none, none, none, []⟩ args with
  | some a =>
    match a.command? with
    | some command => Stencil.Main.execute a command
    | none =>
      IO.eprintln Stencil.Main.usage
      return 2
  | none =>
    IO.eprintln Stencil.Main.usage
    return 2
