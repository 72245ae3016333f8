import Stencil.Text.Blank

/-!
# Delimiters

The three pairs of delimiters of a template and what they enclose at a given place. Between the
delimiters of a tag blanks are given to the margins before anything is given to the content, and
the content ends as early as possible; a margin gives blanks back only if no closing delimiter
follows otherwise.
-/

namespace Stencil

/-- The kinds of tags that become tokens. -/
inductive TagKind where
  | expression
  | block
  deriving DecidableEq, Inhabited

structure Pair where
  opening : List Char
  closing : List Char
  deriving DecidableEq, Inhabited

structure Delimiters where
  comment : Pair
  expression : Pair
  block : Pair
  deriving DecidableEq

namespace Delimiters

def standard : Delimiters :=
  ⟨⟨['\x7b', '#'], ['#', '\x7d']⟩, ⟨['\x7b', '\x7b'], ['\x7d', '\x7d']⟩,
    ⟨['\x7b', '%'], ['%', '\x7d']⟩⟩

instance : Inhabited Delimiters := ⟨standard⟩

end Delimiters

/-- What a pair of delimiters encloses at a place: a comment, or a tag with its content. The
length includes the delimiters. -/
inductive Enclosure where
  | comment (length : Nat)
  | tag (kind : TagKind) (content : List Char) (length : Nat)

namespace Enclosure

def length : Enclosure → Nat
  | comment n => n
  | tag _ _ n => n

/-- The distance to the end of the first occurrence of a closing delimiter. -/
def closingEnd (closing : List Char) : List Char → Option Nat
  | [] => if closing.isEmpty then some 0 else none
  | c :: cs =>
    if closing.isPrefixOf (c :: cs) then some closing.length
    else (closingEnd closing cs).map (· + 1)

/-- The length of a margin of at most `most` blanks with the closing delimiter behind it, the
widest that has one. -/
def marginEnd (closing cs : List Char) : Nat → Option Nat
  | 0 => if closing.isPrefixOf cs then some closing.length else none
  | width + 1 =>
    if closing.isPrefixOf (cs.drop (width + 1)) then some (width + 1 + closing.length)
    else marginEnd closing cs width

def blanks (cs : List Char) : Nat :=
  (cs.takeWhile Text.isBlank).length

/-- The shortest content with a margin and the closing delimiter behind it, and the length of all
three. -/
def contentEnd (closing : List Char) : List Char → Option (List Char × Nat)
  | [] => (marginEnd closing [] 0).map fun n => ([], n)
  | c :: cs =>
    match marginEnd closing (c :: cs) (blanks (c :: cs)) with
    | some n => some ([], n)
    | none => (contentEnd closing cs).map fun (content, n) => (c :: content, n + 1)

/-- The content behind a margin of at most `most` blanks, the widest that leaves a closing
delimiter. -/
def bodyEnd (closing cs : List Char) : Nat → Option (List Char × Nat)
  | 0 => contentEnd closing cs
  | width + 1 =>
    match contentEnd closing (cs.drop (width + 1)) with
    | some (content, n) => some (content, width + 1 + n)
    | none => bodyEnd closing cs width

def comment? (p : Pair) (cs : List Char) : Option Enclosure :=
  if p.opening.isPrefixOf cs then
    (closingEnd p.closing (cs.drop p.opening.length)).map fun n => comment (p.opening.length + n)
  else none

def tag? (kind : TagKind) (p : Pair) (cs : List Char) : Option Enclosure :=
  if p.opening.isPrefixOf cs then
    let body := cs.drop p.opening.length
    (bodyEnd p.closing body (blanks body)).map fun (content, n) =>
      tag kind content (p.opening.length + n)
  else none

end Enclosure

/-- What begins at a place: a comment before an expression before a block. -/
def Delimiters.enclosure? (d : Delimiters) (cs : List Char) : Option Enclosure :=
  (Enclosure.comment? d.comment cs).or
    ((Enclosure.tag? .expression d.expression cs).or (Enclosure.tag? .block d.block cs))

end Stencil
