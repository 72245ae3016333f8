/-!
# Paths

Paths as text between slashes. Empty parts and single dots name nothing, and a part `..` goes back.
-/

namespace Stencil

structure Path where
  text : String
  deriving DecidableEq, Inhabited

namespace Path

/-- All parts of a path, also those that name nothing. -/
def rawParts (p : Path) : List String :=
  (p.text.toList.splitOn '/').map String.ofList

def isPart (part : String) : Bool :=
  part != "" && part != "."

def parts (p : Path) : List String :=
  p.rawParts.filter isPart

def isAbsolute (p : Path) : Bool :=
  p.text.startsWith "/"

/-- A path seen from another: itself if it is absolute. -/
def join (base p : Path) : Path :=
  if p.isAbsolute || base.text.isEmpty then p
  else if base.text.endsWith "/" then ⟨base.text ++ p.text⟩
  else ⟨base.text ++ "/" ++ p.text⟩

def fileName? (p : Path) : Option String :=
  match p.parts.getLast? with
  | some ".." => none
  | last => last

/-- The part of a file name behind its last dot; a dot at the front begins no extension. -/
def extensionOf (name : List Char) : Option (List Char) :=
  let behind := name.reverse.takeWhile (· ≠ '.')
  if behind.length + 1 < name.length then some behind.reverse else none

def extension? (p : Path) : Option String :=
  p.fileName?.bind fun name => (extensionOf name.toList).map String.ofList

/-- Drops the parts at the end that name nothing, given backwards; the first part is kept. -/
def dropUnnamed : List String → List String
  | [] => []
  | [first] => [first]
  | part :: rest => if isPart part then part :: rest else dropUnnamed rest

def parent (p : Path) : Path :=
  match dropUnnamed (dropUnnamed p.rawParts.reverse).tail with
  | [] => ⟨""⟩
  | [""] => ⟨if p.isAbsolute then "/" else ""⟩
  | backwards => ⟨"/".intercalate backwards.reverse⟩

/-- The root or the dot that a path begins with. -/
def lead (p : Path) : List String :=
  if p.isAbsolute then ["/"] else if p.rawParts.head? = some "." then ["."] else []

/-- What a path begins with, and its parts that name something. -/
def components (p : Path) : List String :=
  p.lead ++ p.parts

/-- What is left of a path behind another that it begins with, part by part. Every path begins with
the empty one. -/
def behind? (p base : Path) : Option (List String) :=
  if base.components.isPrefixOf p.components then
    some (p.components.drop base.components.length)
  else none

end Path

end Stencil
