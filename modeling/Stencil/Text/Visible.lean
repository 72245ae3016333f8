import Stencil.Text.Hidden

/-!
# Visible text

Text in double quotes with every hidden character written as an escape, for diagnostics.
-/

namespace Stencil.Text

def visibleChar (c : Char) : List Char :=
  if c = '\t' then ['\\', 't']
  else if c = '\r' then ['\\', 'r']
  else if c = '\n' then ['\\', 'n']
  else if c = '\x00' then ['\\', '0']
  else if c = '\\' || c = '\x22' then ['\\', c]
  else if isHidden c then ['\\', 'u', '\x7b'] ++ Nat.toDigits 16 c.toNat ++ ['\x7d']
  else [c]

/-- Text in double quotes, hidden characters by name or number. -/
def visible (text : String) : String :=
  String.ofList ('\x22' :: text.toList.flatMap visibleChar ++ ['\x22'])

end Stencil.Text
