import Stencil.Markup.Piece
import Stencil.Text.Lines

/-!
# Tokens

The pieces of a source that mean something, with the line they start on and the bytes they take.
-/

namespace Stencil

inductive TokenKind where
  | text
  | expression
  | block
  deriving DecidableEq, Inhabited

def TokenKind.name : TokenKind → String
  | text => "text"
  | expression => "expression"
  | block => "block"

def TagKind.tokenKind : TagKind → TokenKind
  | expression => .expression
  | block => .block

/-- A text, or the content of a tag without its margins, with the bytes `start` to `stop` of the
source. -/
structure Token where
  line : Nat
  kind : TokenKind
  content : String
  start : Nat
  stop : Nat
  deriving DecidableEq, Inhabited

namespace Token

def byteLength : List Char → Nat
  | [] => 0
  | c :: cs => c.utf8Size + byteLength cs

/-- The tokens of pieces that start on a line and at a byte. -/
def ofPiecesAt : Nat → Nat → List Piece → List Token
  | _, _, [] => []
  | line, start, p :: ps =>
    let stop := start + byteLength p.source
    let rest := ofPiecesAt (line + Text.newlines p.source) stop ps
    match p with
    | .text content => ⟨line, .text, String.ofList content, start, stop⟩ :: rest
    | .hidden _ => rest
    | .tag kind content _ => ⟨line, kind.tokenKind, String.ofList content, start, stop⟩ :: rest

def scan (d : Delimiters) (source : String) : List Token :=
  ofPiecesAt 1 0 (Piece.cut d source.toList)

end Token

end Stencil
