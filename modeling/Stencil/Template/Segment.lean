import Stencil.Expr.Parser

/-!
# Segments

The steps a template is made of, each with the line of the tag or text it comes from.
-/

namespace Stencil

/-- Something on a line of a source. -/
structure Located (α : Type) where
  line : Nat
  item : α
  deriving Inhabited

/-- One step of rendering. Blocks belong to the step that holds them. -/
inductive Step where
  | text (content : String)
  | output (value : Formula)
  /-- The block of the first condition that holds, else the last block. -/
  | choice (clauses : List (Formula × List (Located Step)))
      (otherwise : Option (List (Located Step)))
  /-- The block once for every item, which is unpacked if the targets were written with a comma. -/
  | loop (targets : List String) (unpack : Bool) (items : Formula) (body : List (Located Step))
  /-- Another template in the place of the tag. -/
  | insertion (target : Formula)
  /-- The block rendered apart, its output transformed by the tag of the given name. -/
  | captured (tag : String) (transform : String → String) (body : List (Located Step))
  deriving Inhabited

abbrev Segment := Located Step

abbrev Block := List Segment

end Stencil
