import Stencil.Dict
import Stencil.Path

/-!
# Escaping

Functions on output, chosen by the extension of a template's name.
-/

namespace Stencil

/-- A function on the text of a value. -/
abbrev Escape := String → String

namespace Escape

def htmlChar (c : Char) : List Char :=
  if c = '&' then "&amp;".toList
  else if c = '<' then "&lt;".toList
  else if c = '>' then "&gt;".toList
  else if c = '\x22' then "&quot;".toList
  else if c = '\x27' then "&#39;".toList
  else [c]

/-- Text for a page: the characters that mark up are written as entities. -/
def html : Escape := fun s =>
  String.ofList (s.toList.flatMap htmlChar)

end Escape

/-- Escape functions by extension, which is kept with its dot. -/
structure EscapeTable where
  byExtension : Dict Escape
  deriving Inhabited

namespace EscapeTable

def dotted (extension : String) : String :=
  if extension.startsWith "." then extension else "." ++ extension

def empty : EscapeTable :=
  ⟨[]⟩

def standard : EscapeTable :=
  ⟨[(".html", Escape.html), (".htm", Escape.html)]⟩

def insert (t : EscapeTable) (extension : String) (escape : Escape) : EscapeTable :=
  ⟨t.byExtension.set (dotted extension) escape⟩

def erase (t : EscapeTable) (extension : String) : EscapeTable :=
  ⟨t.byExtension.remove (dotted extension)⟩

/-- The escape function for a template of a given name. -/
def forName (t : EscapeTable) (name : String) : Option Escape :=
  (Path.mk name).extension?.bind fun extension => t.byExtension.get? ("." ++ extension)

def extensions (t : EscapeTable) : List String :=
  (Dict.sorted t.byExtension).keys

end EscapeTable

end Stencil
