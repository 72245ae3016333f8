import Stencil.Json
import Stencil.Number.Real
import Stencil.Toml.Item

/-!
# TOML scalars

Numbers, dates, truth values and quoted texts.
-/

namespace Stencil.Toml

/-- Digits of a class with single underscores between them, without these. -/
def digitRun? (isDigit : Char → Bool) : List Char → Option (List Char)
  | [] => none
  | [c] => if isDigit c then some [c] else none
  | c :: '_' :: cs => if isDigit c then (digitRun? isDigit cs).map (c :: ·) else none
  | c :: cs => if isDigit c then (digitRun? isDigit cs).map (c :: ·) else none

/-- Decimal digits without a zero in front of others. -/
def wholeRun? (cs : List Char) : Option (List Char) := do
  let ds ← digitRun? Char.isDigit cs
  if 1 < ds.length ∧ ds.head? = some '0' then none else some ds

def unsign : List Char → Bool × List Char
  | '-' :: cs => (true, cs)
  | '+' :: cs => (false, cs)
  | cs => (false, cs)

def inBase (base : Nat) (ds : List Char) : Nat :=
  ds.foldl (fun n c => base * n + (Json.hexDigit? c).getD 0) 0

def prefixed? : List Char → Option Int
  | '0' :: 'x' :: cs =>
    (digitRun? (fun c => (Json.hexDigit? c).isSome) cs).map fun ds => inBase 16 ds
  | '0' :: 'o' :: cs => (digitRun? (fun c => '0' ≤ c && c ≤ '7') cs).map fun ds => inBase 8 ds
  | '0' :: 'b' :: cs => (digitRun? (fun c => c = '0' || c = '1') cs).map fun ds => inBase 2 ds
  | _ => none

def integer? (cs : List Char) : Option Int64 :=
  match prefixed? cs with
  | some n => Number.fit? n
  | none =>
    let (negative, ds) := unsign cs
    (wholeRun? ds).bind fun ds =>
      let n : Int := Nat.ofDigitChars 10 ds 0
      Number.fit? (if negative then -n else n)

def isExponent (cs : List Char) : Bool :=
  (digitRun? Char.isDigit (unsign cs).2).isSome

def isExponentLetter (c : Char) : Bool :=
  c = 'e' || c = 'E'

/-- Whether a text is a real number that is not beyond all others. -/
def isReal (cs : List Char) : Bool :=
  let (_, ds) := unsign cs
  if ds = "inf".toList ∨ ds = "nan".toList then true
  else
    let whole := ds.takeWhile fun c => c.isDigit || c = '_'
    let form :=
      match ds.drop whole.length with
      | '.' :: rest =>
        let places := rest.takeWhile fun c => c.isDigit || c = '_'
        (digitRun? Char.isDigit places).isSome &&
          match rest.drop places.length with
          | [] => true
          | e :: rest => isExponentLetter e && isExponent rest
      | e :: rest => isExponentLetter e && isExponent rest
      | [] => false
    let size := Number.readReal? (cs.filter (· ≠ '_'))
    (wholeRun? whole).isSome && form && (size.map fun x => !(x.isInf && 0 < x)).getD false

def fixed? (count : Nat) (cs : List Char) : Option (Nat × List Char) :=
  let ds := cs.take count
  if ds.length = count ∧ ds.all Char.isDigit then
    some (Nat.ofDigitChars 10 ds 0, cs.drop count)
  else none

def daysOf (year month : Nat) : Nat :=
  if month = 2 then
    if year % 4 = 0 ∧ (year % 100 ≠ 0 ∨ year % 400 = 0) then 29 else 28
  else if month = 4 ∨ month = 6 ∨ month = 9 ∨ month = 11 then 30
  else 31

def afterDate? (cs : List Char) : Option (List Char) := do
  let (year, cs) ← fixed? 4 cs
  let (month, cs) ← cs.head?.bind fun c => if c = '-' then fixed? 2 cs.tail else none
  let (day, cs) ← cs.head?.bind fun c => if c = '-' then fixed? 2 cs.tail else none
  if 1 ≤ month ∧ month ≤ 12 ∧ 1 ≤ day ∧ day ≤ daysOf year month then some cs else none

def afterMinutes? (cs : List Char) : Option (List Char) := do
  let (hour, cs) ← fixed? 2 cs
  let (minute, cs) ← cs.head?.bind fun c => if c = ':' then fixed? 2 cs.tail else none
  if hour < 24 ∧ minute < 60 then some cs else none

def afterTime? (cs : List Char) : Option (List Char) := do
  let cs ← afterMinutes? cs
  let (second, cs) ← cs.head?.bind fun c => if c = ':' then fixed? 2 cs.tail else none
  if 60 < second then none
  else
    match cs with
    | '.' :: rest =>
      let places := rest.takeWhile Char.isDigit
      if places.isEmpty then none else some (rest.drop places.length)
    | cs => some cs

/-- Whether a text is an offset from universal time, or nothing. -/
def isOffset : List Char → Bool
  | [] => true
  | ['Z'] => true
  | ['z'] => true
  | c :: cs => (c = '+' || c = '-') && afterMinutes? cs == some []

def isMoment (cs : List Char) : Bool :=
  match afterDate? cs with
  | some [] => true
  | some (c :: rest) =>
    (c = 'T' || c = 't' || c = ' ') && ((afterTime? rest).map isOffset).getD false
  | none => afterTime? cs == some []

def bare? (cs : List Char) : Option Item :=
  if cs = "true".toList then some (.bool true)
  else if cs = "false".toList then some (.bool false)
  else
    match integer? cs with
    | some i => some (.integer i)
    | none => if isMoment cs || isReal cs then some .other else none

/-- Whether a character may stand in a text as it is, quotes and line ends aside. -/
def isPlain (c : Char) : Bool :=
  c = '\t' || (0x20 ≤ c.toNat && c.toNat ≠ 0x7F)

def numbered? (ds : List Char) : Option Char := do
  let n ← Json.hex? ds
  if n < 0xD800 ∨ (0xE000 ≤ n ∧ n < 0x110000) then some (Char.ofNat n) else none

/-- What follows the line that a backslash ends, and its blank successors, if nothing but blanks
stands behind the backslash. -/
def joinLines : Bool → List Char → Option (List Char)
  | ended, [] => if ended then some [] else none
  | _, '\r' :: '\n' :: cs => joinLines true cs
  | _, '\n' :: cs => joinLines true cs
  | ended, c :: cs =>
    if c = ' ' ∨ c = '\t' then joinLines ended cs
    else if ended then some (c :: cs)
    else none

/-- The number of quotes at the front, up to five. -/
def quotes (mark : Char) (cs : List Char) : Nat :=
  min 5 (cs.takeWhile (· = mark)).length

/-- A text in double quotes up to its end, and what follows; `many` is for three quotes. The first
argument bounds the characters still read. -/
def basic? (many : Bool) : Nat → List Char → Option (List Char × List Char)
  | 0, _ => none
  | _, [] => none
  | n + 1, c :: cs =>
    let more (found : Char) (rest : List Char) :=
      (basic? many n rest).map fun (body, rest) => (found :: body, rest)
    if c = '\x22' then
      if !many then some ([], cs)
      else
        let count := quotes '\x22' (c :: cs)
        if 3 ≤ count then
          some (List.replicate (count - 3) '\x22', cs.drop (count - 1))
        else more c cs
    else if c = '\\' then
      match cs with
      | 'u' :: rest =>
        if rest.length < 4 then none
        else (numbered? (rest.take 4)).bind fun found => more found (rest.drop 4)
      | 'U' :: rest =>
        if rest.length < 8 then none
        else (numbered? (rest.take 8)).bind fun found => more found (rest.drop 8)
      | e :: rest =>
        if e = '/' then none
        else
          match Json.escape? e with
          | some code => more (Char.ofNat code) rest
          | none => if many then (joinLines false cs).bind (basic? many n) else none
      | [] => none
    else if many ∧ c = '\n' then more c cs
    else if many ∧ c = '\r' ∧ cs.head? = some '\n' then
      (basic? many n cs.tail).map fun (body, rest) => ('\n' :: body, rest)
    else if isPlain c then more c cs
    else none

def literal? (many : Bool) : List Char → Option (List Char × List Char)
  | [] => none
  | '\r' :: '\n' :: cs =>
    if many then (literal? many cs).map fun (body, rest) => ('\n' :: body, rest) else none
  | c :: cs =>
    if c = '\x27' then
      if !many then some ([], cs)
      else
        let count := quotes '\x27' (c :: cs)
        if 3 ≤ count then some (List.replicate (count - 3) '\x27', cs.drop (count - 1))
        else (literal? many cs).map fun (body, rest) => (c :: body, rest)
    else if isPlain c || (many && c = '\n') then
      (literal? many cs).map fun (body, rest) => (c :: body, rest)
    else none

def dropNewline : List Char → List Char
  | '\n' :: cs => cs
  | '\r' :: '\n' :: cs => cs
  | cs => cs

def quoted? (mayBeLong : Bool) : List Char → Option (List Char × List Char)
  | '\x22' :: '\x22' :: '\x22' :: cs =>
    if mayBeLong then basic? true cs.length (dropNewline cs) else some ([], '\x22' :: cs)
  | '\x27' :: '\x27' :: '\x27' :: cs =>
    if mayBeLong then literal? true (dropNewline cs) else some ([], '\x27' :: cs)
  | '\x22' :: cs => basic? false cs.length cs
  | '\x27' :: cs => literal? false cs
  | _ => none

end Stencil.Toml
