import Stencil.Text.Blank

/-!
# Block tags

What the content of a block tag says. A word is set off from what follows by blanks, all of which
belong to the gap unless that would leave nothing behind it.
-/

namespace Stencil

/-- A tag supplied by the host: the block up to the ending is rendered apart and transformed. -/
structure CustomTag where
  name : String
  ending : String
  transform : String → String
  deriving Inhabited

inductive Header where
  | choice (condition : List Char)
  | loop (names items : List Char)
  | insertion (target : List Char)
  | captured (tag : CustomTag)

inductive Branch where
  | clause (condition : List Char)
  | otherwise
  | ending
  deriving DecidableEq

namespace Header

/-- What follows a gap that takes all blanks, or all but the last of several if nothing follows
them. -/
def afterGap (cs : List Char) : Option (List Char) :=
  let gap := cs.takeWhile Text.isBlank
  let rest := cs.dropWhile Text.isBlank
  match gap, rest with
  | [], _ => none
  | [_], [] => none
  | _ :: more, [] => some (more.drop (more.length - 1))
  | _, rest => some rest

def afterWord (word cs : List Char) : Option (List Char) :=
  if word.isPrefixOf cs then afterGap (cs.drop word.length) else none

/-- What follows a gap, the word `in` and another gap. -/
def afterIn (cs : List Char) : Option (List Char) :=
  if (cs.head?.map Text.isBlank).getD false then
    afterWord ['i', 'n'] (cs.dropWhile Text.isBlank)
  else none

/-- The shortest names with `in` behind them, and the items behind that. -/
def splitIn : List Char → Option (List Char × List Char)
  | [] => none
  | c :: cs =>
    match afterIn cs with
    | some items => some ([c], items)
    | none => (splitIn cs).map fun (names, items) => (c :: names, items)

/-- Names and items behind a gap of at most `most` blanks, the widest that leaves both. -/
def splitLoop (cs : List Char) : Nat → Option (List Char × List Char)
  | 0 => none
  | width + 1 =>
    match splitIn (cs.drop (width + 1)) with
    | some parts => some parts
    | none => splitLoop cs width

def builtin? (content : List Char) : Option Header :=
  match afterWord ['i', 'f'] content with
  | some condition => some (choice condition)
  | none =>
    let loop? :=
      if ['f', 'o', 'r'].isPrefixOf content then
        let rest := content.drop 3
        splitLoop rest (rest.takeWhile Text.isBlank).length
      else none
    match loop? with
    | some (names, items) => some (loop names items)
    | none => (afterWord ['i', 'n', 'c', 'l', 'u', 'd', 'e'] content).map insertion

/-- The step that a tag begins: a builtin construct if those are known, else a tag of the host. -/
def read? (builtins : Bool) (custom : List CustomTag) (content : List Char) : Option Header :=
  (if builtins then builtin? content else none).or
    ((custom.find? fun tag => tag.name.toList == content).map captured)

end Header

def Branch.read? (content : List Char) : Option Branch :=
  match Header.afterWord ['e', 'l', 'i', 'f'] content with
  | some condition => some (clause condition)
  | none =>
    if content = ['e', 'l', 's', 'e'] then some otherwise
    else if content = ['e', 'n', 'd', 'i', 'f'] then some ending
    else none

end Stencil
