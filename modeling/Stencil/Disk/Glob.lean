import Stencil.Disk.Tree

/-!
# Glob patterns

Patterns for paths, part by part: `?` for a character, `*` for any, classes in brackets, and the
part `**` for directories at any depth.
-/

namespace Stencil.Glob

/-- A class of characters in brackets. -/
inductive Specifier where
  | single (c : Char)
  | range (first last : Char)
  deriving DecidableEq

inductive Element where
  | char (c : Char)
  | anyChar
  | anyRun
  | oneOf (specifiers : List Specifier)
  | noneOf (specifiers : List Specifier)
  | anyDepth
  deriving DecidableEq

/-- Why a text is no pattern, with the place of the fault. -/
inductive Fault where
  | tooManyStars (place : Nat)
  | notWholePart (place : Nat)
  | badClass (place : Nat)
  deriving DecidableEq

def Fault.message : Fault → String
  | tooManyStars place => text place "wildcards are either regular `*` or recursive `**`"
  | notWholePart place => text place "recursive wildcards must form a single path component"
  | badClass place => text place "invalid range pattern"
where
  text (place : Nat) (why : String) : String :=
    "Pattern syntax error near position " ++ String.ofList (Nat.toDigits 10 place) ++ ": " ++ why

def specifiers : List Char → List Specifier
  | a :: '-' :: b :: cs => .range a b :: specifiers cs
  | c :: cs => .single c :: specifiers cs
  | [] => []

/-- The class whose bracket stands before a text, and its length without that bracket. A closing
bracket is the first thing in a class if it stands there. -/
def class? (cs : List Char) : Option (Element × Nat) :=
  match cs with
  | '!' :: c :: cs =>
    let rest := cs.takeWhile (· ≠ ']')
    if rest.length < cs.length then some (.noneOf (specifiers (c :: rest)), rest.length + 3)
    else none
  | ['!'] => none
  | c :: cs =>
    let rest := cs.takeWhile (· ≠ ']')
    if rest.length < cs.length then some (.oneOf (specifiers (c :: rest)), rest.length + 2)
    else none
  | [] => none

/-- The elements of a pattern from a place on, after skipping the rest of one; `atPart` says
whether a part begins there. -/
def elementsFrom : Nat → Nat → Bool → List Char → Except Fault (List Element)
  | _, _, _, [] => .ok []
  | place, skip + 1, _, c :: cs => elementsFrom (place + 1) skip (c = '/') cs
  | place, 0, atPart, c :: cs =>
    if c = '?' then (elementsFrom (place + 1) 0 false cs).map (.anyChar :: ·)
    else if c = '*' then
      let stars := (cs.takeWhile (· = '*')).length + 1
      if 2 < stars then .error (.tooManyStars (place + 2))
      else if stars = 1 then (elementsFrom (place + 1) 0 false cs).map (.anyRun :: ·)
      else if !atPart then .error (.notWholePart (place - 1))
      else
        match cs.tail with
        | [] => .ok [.anyDepth]
        | '/' :: _ => (elementsFrom (place + 1) 2 true cs).map (.anyDepth :: ·)
        | _ => .error (.notWholePart (place + 2))
    else if c = '[' then
      match class? cs with
      | some (element, length) => (elementsFrom (place + 1) length false cs).map (element :: ·)
      | none => .error (.badClass place)
    else (elementsFrom (place + 1) 0 (c = '/') cs).map (.char c :: ·)

def elements (pattern : String) : Except Fault (List Element) :=
  elementsFrom 0 0 true pattern.toList

def Specifier.has (s : Specifier) (c : Char) : Bool :=
  match s with
  | single d => c = d
  | range first last => first ≤ c && c ≤ last

def nameMatches : List Element → List Char → Bool
  | [], [] => true
  | [], _ :: _ => false
  | .anyRun :: es, cs => anywhere (nameMatches es) cs
  | .anyDepth :: es, cs => anywhere (nameMatches es) cs
  | .char d :: es, c :: cs => c = d && nameMatches es cs
  | .anyChar :: es, _ :: cs => nameMatches es cs
  | .oneOf specifiers :: es, c :: cs => specifiers.any (·.has c) && nameMatches es cs
  | .noneOf specifiers :: es, c :: cs => !specifiers.any (·.has c) && nameMatches es cs
  | _ :: _, [] => false
where
  /-- Whether a test holds of the rest from some place on. -/
  anywhere (test : List Char → Bool) : List Char → Bool
    | [] => test []
    | c :: cs => test (c :: cs) || anywhere test cs

/-- The text of a pattern that stands for itself only. -/
def plain? : List Element → Option String
  | es =>
    (es.mapM fun e =>
      match e with
      | Element.char c => some c
      | _ => none).map String.ofList

mutual

/-- The paths to everything below a directory, each with its name and node. -/
def below (path : Path) : List (String × Node) → List (Path × String × Node)
  | [] => []
  | (name, n) :: rest => belowEntry path name n ++ below path rest

def belowEntry (path : Path) (name : String) : Node → List (Path × String × Node)
  | .file content => [(path.join ⟨name⟩, name, .file content)]
  | .dir entries =>
    (path.join ⟨name⟩, name, .dir entries) :: below (path.join ⟨name⟩) entries

end

def isDir : Node → Bool
  | .file _ => false
  | .dir _ => true

/-- A path seen from a directory; from the current one it is the name alone. -/
def child (path : Path) (name : String) : Path :=
  if path.text = "." then ⟨name⟩ else path.join ⟨name⟩

/-- The parts behind those for any depth. -/
def dropDepths : List (List Element) → List (List Element)
  | [] => []
  | part :: parts => if part.contains .anyDepth then dropDepths parts else part :: parts

/-- The paths below a path that match the parts of a pattern. The first argument bounds the parts
still to be matched. -/
def expand (disk : Disk) : Nat → List (List Element) → Path → List Path
  | 0, _, _ => []
  | _, [], _ => []
  | n + 1, part :: parts, path =>
    match plain? part with
    | some name =>
      let next := child path name
      let found :=
        if name = "." ∨ name = ".." then (disk.dir? path).isSome else disk.pathExists next
      if !found then [] else if parts.isEmpty then [next] else expand disk n parts next
    | none =>
      match disk.dir? path with
      | none => []
      | some entries =>
        if part.contains .anyDepth then
          let base := if path.text = "." then ⟨""⟩ else path
          (below base entries).flatMap fun (found, name, node) =>
            match dropDepths parts with
            | [] => if isDir node then [found] else []
            | part :: parts =>
              if !nameMatches part name.toList then []
              else if parts.isEmpty then [found]
              else expand disk n parts found
        else
          let specials :=
            if part.head? = some (Element.char '.') then [".", ".."].filter fun name =>
              nameMatches part name.toList
            else []
          (entries.map (·.1) ++ specials).flatMap fun name =>
            if specials.contains name || nameMatches part name.toList then
              if parts.isEmpty then [child path name] else expand disk n parts (child path name)
            else []

/-- The parts of a pattern between slashes; a slash at the end begins no part. -/
def parts (pattern : List Char) : List String :=
  let found := pattern.splitOn '/'
  ((if found.getLast? = some [] then found.dropLast else found).map String.ofList)

def find (disk : Disk) (pattern : String) : Except Fault (List Path) := do
  let _ ← elements pattern
  let absolute := pattern.startsWith "/"
  let found := parts (if absolute then pattern.toList.tail else pattern.toList)
  let es ← found.mapM elements
  return expand disk (es.length + 1) es ⟨if absolute then "/" else "."⟩

end Stencil.Glob
