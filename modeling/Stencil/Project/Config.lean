import Stencil.Loader
import Stencil.Toml.Document

/-!
# Configuration

The settings of a project: where templates are, how tags are written, what is escaped, and what is
cached. Keys that mean nothing are ignored; a section may also be an array of its settings in
order.
-/

namespace Stencil

/-- The settings of a project. Directories are relative to `base`. -/
structure Config where
  dirs : List String
  comment : String × String
  expression : String × String
  block : String × String
  /-- Whether the output of templates with an extension is escaped for pages, ascending by it. -/
  escape : List (String × Bool)
  cached : Bool
  capacity : Nat
  base : Path
  deriving Inhabited

namespace Config

open Toml (Item Entries)

def standard : Config where
  dirs := ["templates"]
  comment := ("\x7b#", "#\x7d")
  expression := ("\x7b\x7b", "\x7d\x7d")
  block := ("\x7b%", "%\x7d")
  escape := []
  cached := true
  capacity := 0
  base := ⟨""⟩

def fileName : String :=
  "typhoon.toml"

def text? : Item → Option String
  | .text s => some s
  | _ => none

def flag? : Item → Option Bool
  | .bool b => some b
  | _ => none

def count? : Item → Option Nat
  | .integer i => if 0 ≤ i.toInt then some i.toInt.toNat else none
  | _ => none

def texts? : Item → Option (List String)
  | .array items => items.mapM text?
  | _ => none

/-- Two texts; more items mean nothing. -/
def pair? : Item → Option (String × String)
  | .array (a :: b :: _) => return (← text? a, ← text? b)
  | _ => none

/-- Whether an item stands for nothing. -/
def isVoid : Item → Bool
  | .array items => items.isEmpty
  | .table _ entries => entries.isEmpty
  | .tables items => items.isEmpty
  | _ => false

/-- Whether to escape: a word, or a table with the word as its only key and nothing under it. -/
def escaping? : Item → Option Bool
  | .text "html" => some true
  | .text "none" => some false
  | .table _ [("html", item)] => if isVoid item then some true else none
  | .table _ [("none", item)] => if isVoid item then some false else none
  | _ => none

/-- The settings of a section under their names: those of a table, or the items of an array. -/
def section? (names : List String) : Item → Option Entries
  | .table _ entries => some entries
  | .array items => some (names.zip items)
  | .tables items => some (names.zip (items.map fun entries => .table .headed entries))
  | _ => none

def sectionOf (entries : Entries) (name : String) (names : List String) : Option Entries :=
  match entries.get? name with
  | none => some []
  | some item => section? names item

def setting {α : Type} (entries : Entries) (name : String) (read? : Item → Option α)
    (default : α) : Option α :=
  match entries.get? name with
  | none => some default
  | some item => read? item

def escapes? (entries : Entries) : Option (List (String × Bool)) :=
  match entries.get? "escape" with
  | none => some []
  | some (.table _ es) => (es.mapM fun e => (escaping? e.2).map fun on => (e.1, on)).map Dict.sorted
  | some _ => none

def parse? (text : String) : Option Config := do
  let entries ← Toml.read? text
  let templates ← sectionOf entries "templates" ["dirs"]
  let tags ← sectionOf entries "syntax" ["comment", "expression", "block"]
  let cache ← sectionOf entries "cache" ["enabled", "capacity"]
  return {
    dirs := ← setting templates "dirs" texts? standard.dirs
    comment := ← setting tags "comment" pair? standard.comment
    expression := ← setting tags "expression" pair? standard.expression
    block := ← setting tags "block" pair? standard.block
    escape := ← escapes? entries
    cached := ← setting cache "enabled" flag? standard.cached
    capacity := ← setting cache "capacity" count? standard.capacity
    base := standard.base }

inductive Fault where
  | unreadable (path : Path) (fault : ReadFault)
  | malformed
  deriving Inhabited

def unreadable (path : Path) (fault : ReadFault) : String :=
  "Failed to read " ++ path.text ++ ": " ++ fault.message

/-- Loads the settings from a file, or from the usual file of the current directory, which may be
missing. Directories are relative to where the file is. -/
def load (disk : Disk) (path : Option Path) : Except Fault Config :=
  let file := path.getD ⟨fileName⟩
  if path.isNone && !disk.pathExists file then .ok { standard with base := disk.currentPath }
  else
    match disk.readText file with
    | .error fault => .error (.unreadable file fault)
    | .ok text =>
      match parse? text with
      | none => .error .malformed
      | some c =>
        .ok { c with base := if file.parent.text.isEmpty then disk.currentPath else file.parent }

def templateDirs (c : Config) : List Path :=
  c.dirs.map fun dir => c.base.join ⟨dir⟩

def delimiters (p : String × String) : Pair :=
  ⟨p.1.toList, p.2.toList⟩

def dialect (c : Config) : Dialect :=
  { Dialect.standard with
    delimiters := ⟨delimiters c.comment, delimiters c.expression, delimiters c.block⟩
    escapes := c.escape.foldl (fun table (extension, on) =>
      if on then table.insert extension Escape.html else table.erase extension) .standard }

/-- One source for each directory. -/
def sources (c : Config) (disk : Disk) : List Source :=
  c.templateDirs.map (.directory disk)

def loader (c : Config) (disk : Disk) : Loader where
  number := 0
  dialect := c.dialect
  sources := c.sources disk
  cache := if c.cached then .recent (.empty c.capacity) else .off
  nextSerial := 0

end Config

end Stencil
