import Stencil.Markup.Delimiters

/-!
# Pieces

A source cut into text, hidden parts and tags. The pieces in order make up the source.
-/

namespace Stencil

inductive Piece where
  | text (content : List Char)
  /-- A comment, or a tag without content. -/
  | hidden (source : List Char)
  | tag (kind : TagKind) (content source : List Char)
  deriving DecidableEq, Inhabited

namespace Piece

def source : Piece → List Char
  | text content => content
  | hidden source => source
  | tag _ _ source => source

/-- Puts the text before a place, which is given backwards, in front of the pieces from there. -/
def flush (before : List Char) (rest : List Piece) : List Piece :=
  if before.isEmpty then rest else text before.reverse :: rest

def ofEnclosure (e : Enclosure) (source : List Char) : Piece :=
  match e with
  | .comment _ => hidden source
  | .tag kind content _ => if content.isEmpty then hidden source else tag kind content source

/-- Cuts on behind the text `before`, which is given backwards, after skipping the rest of an
enclosure. An enclosure of no length divides text. -/
def cutFrom (d : Delimiters) : Nat → List Char → List Char → List Piece
  | _, before, [] => flush before []
  | skip + 1, before, _ :: cs => cutFrom d skip before cs
  | 0, before, c :: cs =>
    match d.enclosure? (c :: cs) with
    | none => cutFrom d 0 (c :: before) cs
    | some e =>
      match e.length with
      | 0 => flush before (cutFrom d 0 [c] cs)
      | n + 1 => flush before (ofEnclosure e (c :: cs.take n) :: cutFrom d n [] cs)

def cut (d : Delimiters) (source : List Char) : List Piece :=
  cutFrom d 0 [] source

end Piece

end Stencil
