import Stencil.Disk.Glob
import Stencil.Json
import Stencil.Project.Config
import Stencil.Render.Basic
import Stencil.Text.Visible

/-!
# Commands

What can be done with a project: render a template, check that templates compile, and show tokens.
A command gives what it prints, and why it fails if it does.
-/

namespace Stencil

inductive CommandFault where
  | template (e : TemplateError)
  | json
  | tooDeep
  | other (message : String)
  deriving Inhabited

def CommandFault.message : CommandFault → String
  | template e => e.display
  | json => "malformed JSON"
  | tooDeep => "templates are inserted too deep"
  | other message => message

/-- What a command printed, and why it failed if it did. -/
structure Report where
  printed : String
  fault : Option CommandFault
  deriving Inhabited

namespace Report

def ofResult : Except CommandFault String → Report
  | .ok text => ⟨text, none⟩
  | .error fault => ⟨"", some fault⟩

end Report

namespace Config

/-- Parameters from JSON text, which has to be an object. -/
def params? (json : String) : Except CommandFault (Dict Value) :=
  match Json.read? json with
  | none => .error .json
  | some (.map entries) => .ok entries
  | some v => .error (.other ("Parameters must be a JSON object, got " ++ v.typeName))

def fileParams? (disk : Disk) (path : Path) : Except CommandFault (Dict Value) :=
  match disk.readText path with
  | .ok json => params? json
  | .error fault => .error (.other (unreadable path fault))

/-- Parameters from a file and from JSON text; those of the text win. -/
def collectParams (disk : Disk) (json : Option String) (file : Option Path) :
    Except CommandFault (Dict Value) := do
  let fromFile ←
    match file with
    | some path => fileParams? disk path
    | none => pure []
  let fromText ←
    match json with
    | some text => params? text
    | none => pure []
  return fromFile.extend fromText

/-- How deep the commands let templates insert one another. -/
def insertionDepth : Nat := 1000

/-- No functions are supplied to the templates of a project. -/
def noHost : Host := fun name _ => .error (.undefinedName name)

def render (c : Config) (disk : Disk) (name : String) (json : Option String)
    (file : Option Path) : Report :=
  .ofResult do
    let params ← collectParams disk json file
    match ((c.loader disk).render noHost insertionDepth name params).1 with
    | .output text => .ok text
    | .failed e => .error (.template e)
    | .tooDeep => .error .tooDeep

def namesIn (disk : Disk) (dir : Path) : Except Glob.Fault (List String) := do
  let paths ← Glob.find disk (dir.text ++ "/**/*")
  return (paths.filter disk.isFile).filterMap fun path =>
    (path.behind? dir).map fun names => "/".intercalate names

def discover (c : Config) (disk : Disk) : Except CommandFault (List String) :=
  match c.templateDirs.mapM (namesIn disk) with
  | .ok names => .ok (names.flatten.mergeSort fun a b => decide (a ≤ b)).eraseDups
  | .error fault => .error (.other fault.message)

/-- Compiles templates in order; gives the error of each that does not compile. -/
def checkEach : Loader → List String → List (String × Option TemplateError)
  | _, [] => []
  | l, name :: names =>
    match l.load name with
    | (.ok _, l) => (name, none) :: checkEach l names
    | (.error e, l) => (name, some e) :: checkEach l names

def checkLine : String × Option TemplateError → String
  | (name, none) => "ok     " ++ name ++ "\n"
  | (name, some e) => "error  " ++ name ++ "\n" ++ e.display ++ "\n"

def check (c : Config) (disk : Disk) (names : List String) : Report :=
  match if names.isEmpty then c.discover disk else .ok names with
  | .error fault => ⟨"", some fault⟩
  | .ok names =>
    let results := checkEach (c.loader disk) names
    let failed := results.countP fun result => result.2.isSome
    let printed := String.join (results.map checkLine)
    if failed = 0 then
      ⟨printed ++ Number.naturalText results.length ++ " templates compiled\n", none⟩
    else
      ⟨printed, some (.other (Number.naturalText failed ++ " of " ++
        Number.naturalText results.length ++ " templates failed to compile"))⟩

def padRight (width : Nat) (s : String) : String :=
  s ++ String.ofList (List.replicate (width - s.length) ' ')

def tokenLine (t : Token) : String :=
  padLeft 4 t.line ++ " " ++ padRight 10 t.kind.name ++ " " ++ Text.visible t.content ++ "\n"

def tokenLines (c : Config) (source : String) : String :=
  String.join ((c.dialect.tokens source).map tokenLine)

def tokens (c : Config) (disk : Disk) (name : String) : Report :=
  match Source.firstText name (c.sources disk) with
  | .ok (some source) => ⟨c.tokenLines source, none⟩
  | .ok none => ⟨"", some (.other ("could not find template '" ++ name ++ "'"))⟩
  | .error e => ⟨"", some (.template e)⟩

end Config

end Stencil
