import Stencil.Expr.Basic
import Stencil.Number.Real
import Stencil.Text.Quoted

/-!
# Lexemes

The words and signs of expression text, each with its place. Blanks between them are spaces, tabs
and line ends only. Neighbouring quoted texts are one text, and `is not` and `not in` are one
lexeme each.
-/

namespace Stencil

inductive Lexeme where
  | literal (value : Literal)
  /-- Digits beyond the integers. -/
  | oversized (digits : String)
  | name (name : String)
  /-- An operator that stands only between operands. -/
  | between (op : BinaryOp)
  | plus
  | minus
  | not
  /-- The words `not in`, with the place of the second. -/
  | notWithin (second : Nat)
  | ifWord
  | elseWord
  | openParen
  | closeParen
  | openSquare
  | closeSquare
  | openBrace
  | closeBrace
  | comma
  | colon
  | dot
  /-- A character that begins no lexeme. -/
  | stray
  deriving Inhabited

namespace Lexeme

def isGap (c : Char) : Bool :=
  c = ' ' || c = '\t' || c = '\r' || c = '\n'

def startsName (c : Char) : Bool :=
  c.isAlpha || c = '_'

def inName (c : Char) : Bool :=
  c.isAlphanum || c = '_'

def word (cs : List Char) : List Char :=
  cs.takeWhile inName

/-- The length of an exponent at the front of a text, zero if there is none. -/
def exponentLength : List Char → Nat
  | [] => 0
  | e :: cs =>
    if e = 'e' ∨ e = 'E' then
      match cs with
      | [] => 0
      | s :: ds =>
        if s = '+' ∨ s = '-' then
          let n := (ds.takeWhile Char.isDigit).length
          if n = 0 then 0 else n + 2
        else
          let n := (cs.takeWhile Char.isDigit).length
          if n = 0 then 0 else n + 1
    else 0

/-- The length of a point and digits at the front of a text, zero if there are none. -/
def placesLength : List Char → Nat
  | '.' :: cs =>
    let n := (cs.takeWhile Char.isDigit).length
    if n = 0 then 0 else n + 1
  | _ => 0

/-- The number at the front of a text that begins with a digit, and its length. Places or an
exponent make it real. -/
def number (cs : List Char) : Lexeme × Nat :=
  let digits := cs.takeWhile Char.isDigit
  let places := placesLength (cs.drop digits.length)
  let exponent := exponentLength (cs.drop (digits.length + places))
  let length := digits.length + places + exponent
  if places + exponent = 0 then
    match Number.readInteger? digits with
    | some i => (literal (.int i), length)
    | none => (oversized (String.ofList digits), length)
  else (literal (.real ((Number.readReal? (cs.take length)).getD 0)), length)

/-- The lexeme of a word at a place, and its length; `after` is the text behind the word. -/
def ofWord (place : Nat) (w after : List Char) : Lexeme × Nat :=
  let gap := after.takeWhile isGap
  let next := word (after.drop gap.length)
  let second := w.length + gap.length
  match String.ofList w with
  | "and" => (between .and, w.length)
  | "or" => (between .or, w.length)
  | "in" => (between .within, w.length)
  | "is" =>
    if String.ofList next = "not" then (between .notSame, second + next.length)
    else (between .same, w.length)
  | "not" =>
    if String.ofList next = "in" then (notWithin (place + second), second + next.length)
    else (not, w.length)
  | "if" => (ifWord, w.length)
  | "else" => (elseWord, w.length)
  | "True" | "true" => (literal (.bool true), w.length)
  | "False" | "false" => (literal (.bool false), w.length)
  | "None" => (literal .none, w.length)
  | s => (name s, w.length)

/-- The sign that a character begins, and its length; `after` is the text behind it. -/
def sign (c : Char) (after : List Char) : Lexeme × Nat :=
  let doubled := after.head? = some c
  let withEquals := after.head? = some '='
  if c = '(' then (openParen, 1)
  else if c = ')' then (closeParen, 1)
  else if c = '[' then (openSquare, 1)
  else if c = ']' then (closeSquare, 1)
  else if c = '\x7b' then (openBrace, 1)
  else if c = '\x7d' then (closeBrace, 1)
  else if c = ',' then (comma, 1)
  else if c = ':' then (colon, 1)
  else if c = '.' then (dot, 1)
  else if c = '+' then (plus, 1)
  else if c = '-' then (minus, 1)
  else if c = '%' then (between .mod, 1)
  else if c = '*' then if doubled then (between .pow, 2) else (between .mul, 1)
  else if c = '/' then if doubled then (between .floorDiv, 2) else (between .div, 1)
  else if c = '<' then if withEquals then (between .le, 2) else (between .lt, 1)
  else if c = '>' then if withEquals then (between .ge, 2) else (between .gt, 1)
  else if c = '=' ∧ withEquals then (between .eq, 2)
  else if c = '!' ∧ withEquals then (between .ne, 2)
  else (stray, 1)

/-- The lexeme at a place where the text goes on with `c` and `cs`, and its length, which is never
zero. -/
def first (place : Nat) (c : Char) (cs : List Char) : Lexeme × Nat :=
  if startsName c then
    ofWord place (c :: word cs) (cs.drop (word cs).length)
  else if c.isDigit then number (c :: cs)
  else if c = '\x27' ∨ c = '\x22' then
    match Text.takeQuoted? c cs with
    | some (body, rest) =>
      (literal (.text (String.ofList (Text.unescaped body))), cs.length - rest.length + 1)
    | none => (stray, 1)
  else sign c cs

/-- The lexemes from a place on, after skipping the rest of one. -/
def scanFrom : Nat → Nat → List Char → List (Lexeme × Nat)
  | _, _, [] => []
  | place, skip + 1, _ :: cs => scanFrom (place + 1) skip cs
  | place, 0, c :: cs =>
    if isGap c then scanFrom (place + 1) 0 cs
    else
      let (lexeme, length) := first place c cs
      (lexeme, place) :: scanFrom (place + 1) (length - 1) cs

/-- Puts a lexeme in front of others; a text before a text joins it. -/
def joinText (l : Lexeme × Nat) (rest : List (Lexeme × Nat)) : List (Lexeme × Nat) :=
  match l, rest with
  | (literal (.text a), place), (literal (.text b), _) :: rest =>
    (literal (.text (a ++ b)), place) :: rest
  | l, rest => l :: rest

def scan (cs : List Char) : List (Lexeme × Nat) :=
  (scanFrom 0 0 cs).foldr joinText []

end Lexeme

/-- The column of a place: one more than the characters before it on its line. -/
def column (cs : List Char) (place : Nat) : Nat :=
  ((cs.take place).reverse.takeWhile (· ≠ '\n')).length + 1

end Stencil
