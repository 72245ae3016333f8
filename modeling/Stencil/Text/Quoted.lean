/-!
# Quoted text

Text between quotes. The quote is the double one exactly when the text holds a single quote and no
double one, so that as few characters as possible are escaped.
-/

namespace Stencil.Text

def quoteMark (cs : List Char) : Char :=
  if cs.contains '\x27' && !cs.contains '\x22' then '\x22' else '\x27'

def escaped (mark c : Char) : List Char :=
  if c = '\\' then ['\\', '\\']
  else if c = '\n' then ['\\', 'n']
  else if c = '\t' then ['\\', 't']
  else if c = '\r' then ['\\', 'r']
  else if c = mark then ['\\', c]
  else [c]

def quoted (cs : List Char) : List Char :=
  let mark := quoteMark cs
  mark :: cs.flatMap (escaped mark) ++ [mark]

/-- The body of a quoted text up to its closing quote, and what follows the quote. A backslash
always takes the next character with it. -/
def takeQuoted? (mark : Char) : List Char → Option (List Char × List Char)
  | [] => none
  | ['\\'] => none
  | '\\' :: c :: cs => (takeQuoted? mark cs).map fun (body, rest) => ('\\' :: c :: body, rest)
  | c :: cs =>
    if c = mark then some ([], cs)
    else (takeQuoted? mark cs).map fun (body, rest) => (c :: body, rest)

/-- The text a quoted body stands for. A backslash before a line feed joins the lines; before a
character that needs no escape it stands for itself. -/
def unescaped : List Char → List Char
  | [] => []
  | ['\\'] => ['\\']
  | '\\' :: c :: cs =>
    if c = 'n' then '\n' :: unescaped cs
    else if c = 't' then '\t' :: unescaped cs
    else if c = 'r' then '\r' :: unescaped cs
    else if c = '0' then '\x00' :: unescaped cs
    else if c = '\\' || c = '\x27' || c = '\x22' then c :: unescaped cs
    else if c = '\n' then unescaped cs
    else '\\' :: c :: unescaped cs
  | c :: cs => c :: unescaped cs

end Stencil.Text
