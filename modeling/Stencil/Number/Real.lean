import Stencil.Number.Integer
import Stencil.Number.Shortest

/-!
# Real numbers

The text of floating point numbers: always positional, with one place for an integral number below
`10 ^ 16` and otherwise the fewest digits that read back.
-/

namespace Stencil.Number

def Decimal.positional (d : Decimal) : List Char :=
  let digits := Nat.toDigits 10 d.digits
  let places := (-d.exponent).toNat
  if 0 ≤ d.exponent then digits ++ List.replicate d.exponent.toNat '0'
  else if places < digits.length then
    digits.take (digits.length - places) ++ '.' :: digits.drop (digits.length - places)
  else '0' :: '.' :: List.replicate (places - digits.length) '0' ++ digits

def Binary.text (b : Binary) : List Char :=
  let binary := b.mantissa * twoPow b.exponent.toNat
  let divisor := twoPow (-b.exponent).toNat
  if binary % divisor = 0 ∧ binary / divisor < tenPow 16 then
    Nat.toDigits 10 (binary / divisor) ++ ['.', '0']
  else b.shortest.positional

def realText (x : Float) : List Char :=
  if x.isNaN then ['n', 'a', 'n']
  else
    let sign := if x.toBits >>> 63 = 1 then ['-'] else []
    if x.isInf then sign ++ ['i', 'n', 'f'] else sign ++ (Binary.ofBits x.toBits).text

/-- The floating point number nearest to a decimal. Far outside the range the power is not
computed. -/
def Decimal.toFloat (d : Decimal) : Float :=
  let top := d.exponent + (Nat.toDigits 10 d.digits).length
  if d.digits = 0 ∨ top < -400 then 0
  else if 400 < top then 1 / 0
  else if d.exponent < 0 then Float.ofScientific d.digits true d.exponent.natAbs
  else Float.ofScientific d.digits false d.exponent.natAbs

/-- An exponent: a letter e, at most one sign, and digits to the end. -/
def readExponent? : List Char → Option Int
  | [] => some 0
  | e :: cs =>
    if e = 'e' ∨ e = 'E' then
      match cs with
      | '-' :: ds => (digits? ds).map fun n => -(n : Int)
      | '+' :: ds => (digits? ds).map fun n => (n : Int)
      | ds => (digits? ds).map fun n => (n : Int)
    else none

/-- Digits on either side of an optional point, at least one, and an optional exponent. -/
def readDecimal? (cs : List Char) : Option Decimal :=
  let whole := cs.takeWhile Char.isDigit
  let rest := cs.dropWhile Char.isDigit
  let (places, rest) : List Char × List Char :=
    match rest with
    | '.' :: rest => (rest.takeWhile Char.isDigit, rest.dropWhile Char.isDigit)
    | _ => ([], rest)
  match digits? (whole ++ places), readExponent? rest with
  | some n, some e => some ⟨n, e - places.length⟩
  | _, _ => none

/-- A magnitude: a decimal, or the words for infinity and for no number in any case. -/
def readMagnitude? (cs : List Char) : Option Float :=
  let word := cs.map Char.toLower
  if word = ['i', 'n', 'f'] ∨ word = ['i', 'n', 'f', 'i', 'n', 'i', 't', 'y'] then some (1 / 0)
  else if word = ['n', 'a', 'n'] then some (0 / 0)
  else (readDecimal? cs).map Decimal.toFloat

def readReal? : List Char → Option Float
  | '-' :: cs => (readMagnitude? cs).map fun x => -x
  | '+' :: cs => readMagnitude? cs
  | cs => readMagnitude? cs

end Stencil.Number
