/-!
# Ranges of characters

A class of characters as a table of ranges of code points.
-/

namespace Stencil.Text

/-- Ranges of code points, both ends included. -/
abbrev Ranges := Array (Nat × Nat)

def Ranges.contains (ranges : Ranges) (c : Char) : Bool :=
  ranges.any fun r => r.1 ≤ c.toNat && c.toNat ≤ r.2

end Stencil.Text
