import Stencil.Toml.Scalar

/-!
# TOML documents

A document read statement by statement: keys with values, and headers that open tables. Every
step of a reader uses up a character, so the length of the text bounds the number of steps.
-/

namespace Stencil.Toml

def skipBlanks (cs : List Char) : List Char :=
  cs.dropWhile fun c => c = ' ' || c = '\t'

/-- What follows a comment up to its line end; controls are not allowed in comments. -/
def skipComment? : List Char → Option (List Char)
  | [] => some []
  | '\n' :: cs => some ('\n' :: cs)
  | '\r' :: '\n' :: cs => some ('\r' :: '\n' :: cs)
  | c :: cs => if isPlain c then skipComment? cs else none

def skipLines? : Nat → List Char → Option (List Char)
  | 0, cs => some cs
  | n + 1, cs =>
    match skipBlanks cs with
    | '#' :: rest => (skipComment? rest).bind (skipLines? n)
    | '\n' :: rest => skipLines? n rest
    | '\r' :: '\n' :: rest => skipLines? n rest
    | rest => some rest

/-- What follows the end of a statement: blanks, a comment, and a line end or the end. -/
def endLine? (cs : List Char) : Option (List Char) := do
  let rest ←
    match skipBlanks cs with
    | '#' :: rest => skipComment? rest
    | rest => some rest
  match rest with
  | [] => some []
  | '\n' :: rest => some rest
  | '\r' :: '\n' :: rest => some rest
  | _ => none

def inKey (c : Char) : Bool :=
  c.isAlphanum || c = '_' || c = '-'

def keyPart? (cs : List Char) : Option (String × List Char) :=
  match cs with
  | '\x22' :: _ => (quoted? false cs).map fun (k, rest) => (String.ofList k, rest)
  | '\x27' :: _ => (quoted? false cs).map fun (k, rest) => (String.ofList k, rest)
  | _ =>
    let k := cs.takeWhile inKey
    if k.isEmpty then none else some (String.ofList k, cs.drop k.length)

/-- A key with the dotted keys before it, and what follows it and blanks. -/
def key? : Nat → List Char → Option (List String × String × List Char)
  | 0, _ => none
  | n + 1, cs => do
    let (part, rest) ← keyPart? (skipBlanks cs)
    match skipBlanks rest with
    | '.' :: rest =>
      let (path, key, rest) ← key? n rest
      return (part :: path, key, rest)
    | rest => return ([], part, rest)

/-- The characters of a value without quotes; a time may follow a date behind a blank. -/
def bareRun (cs : List Char) : List Char :=
  let inRun (c : Char) := c.isAlphanum || c = '+' || c = '-' || c = '_' || c = '.' || c = ':'
  let run := cs.takeWhile inRun
  match cs.drop run.length with
  | ' ' :: rest =>
    if run.length = 10 && run.contains '-' && ((rest.head?.map Char.isDigit).getD false) then
      run ++ ' ' :: rest.takeWhile inRun
    else run
  | _ => run

def depthLimit : Nat := 80

mutual

def value? : Nat → Nat → List Char → Option (Item × List Char)
  | 0, _, _ => none
  | n + 1, depth, cs =>
    match cs with
    | '[' :: rest => if depth + 1 < depthLimit then items? n (depth + 1) [] rest else none
    | '\x7b' :: rest =>
      if depth + 1 < depthLimit then
        match skipBlanks rest with
        | '\x7d' :: rest => some (.table .closed [], rest)
        | rest => entries? n (depth + 1) [] rest
      else none
    | '\x22' :: _ => (quoted? true cs).map fun (s, rest) => (.text (String.ofList s), rest)
    | '\x27' :: _ => (quoted? true cs).map fun (s, rest) => (.text (String.ofList s), rest)
    | _ => (bare? (bareRun cs)).map fun item => (item, cs.drop (bareRun cs).length)

/-- The rest of an array behind items, which are given backwards. -/
def items? : Nat → Nat → List Item → List Char → Option (Item × List Char)
  | 0, _, _, _ => none
  | n + 1, depth, done, cs => do
    match ← skipLines? cs.length cs with
    | ']' :: rest => return (.array done.reverse, rest)
    | rest =>
      let (item, rest) ← value? n depth rest
      match ← skipLines? rest.length rest with
      | ',' :: rest => items? n depth (item :: done) rest
      | ']' :: rest => return (.array (item :: done).reverse, rest)
      | _ => none

def entries? : Nat → Nat → Entries → List Char → Option (Item × List Char)
  | 0, _, _, _ => none
  | n + 1, depth, done, cs => do
    let (path, key, rest) ← key? cs.length cs
    if depthLimit ≤ path.length + 1 then none
    else
      match rest with
      | '=' :: rest =>
        let (item, rest) ← value? n depth (skipBlanks rest)
        let done ← setKey path key item done
        match skipBlanks rest with
        | ',' :: rest => entries? n depth done rest
        | '\x7d' :: rest => return (.table .closed done, rest)
        | _ => none
      | _ => none

end

/-- A document read so far: its entries and the table that is open. -/
structure Document where
  entries : Entries
  header : List String

def header? (d : Document) (cs : List Char) : Option (Document × List Char) := do
  match cs with
  | '[' :: cs =>
    let (path, key, rest) ← key? cs.length cs
    match rest with
    | ']' :: ']' :: rest => return (⟨← openNext path key d.entries, path ++ [key]⟩, rest)
    | _ => none
  | cs =>
    let (path, key, rest) ← key? cs.length cs
    match rest with
    | ']' :: rest => return (⟨← openTable path key d.entries, path ++ [key]⟩, rest)
    | _ => none

def setting? (d : Document) (cs : List Char) : Option (Document × List Char) := do
  let (path, key, rest) ← key? cs.length cs
  match rest with
  | '=' :: rest =>
    let rest := skipBlanks rest
    let (item, rest) ← value? (rest.length + 1) 0 rest
    return ({ d with entries := ← setIn d.header path key item d.entries }, rest)
  | _ => none

def statements? : Nat → Document → List Char → Option Document
  | 0, _, _ => none
  | n + 1, d, cs => do
    match ← skipLines? cs.length cs with
    | [] => return d
    | '[' :: cs =>
      let (d, rest) ← header? d cs
      statements? n d (← endLine? rest)
    | cs =>
      let (d, rest) ← setting? d cs
      statements? n d (← endLine? rest)

/-- The entries of a document. A mark of the byte order at its front is skipped. -/
def read? (text : String) : Option Entries :=
  let cs :=
    match text.toList with
    | c :: cs => if c = '\ufeff' then cs else c :: cs
    | [] => []
  (statements? (cs.length + 1) ⟨[], []⟩ cs).map (·.entries)

end Stencil.Toml
