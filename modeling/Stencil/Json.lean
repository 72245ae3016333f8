import Stencil.Text.Quoted
import Stencil.Value.Operator

/-!
# JSON

Values from JSON text. Objects become maps ascending by key, the last of equal keys counting.
Integers of 64 bits stay integers; other numbers are real, read from the digits that 64 bits hold
and scaled by one power of ten.
-/

namespace Stencil.Json

/-- The words and signs of JSON; texts and numbers are scalars. -/
inductive Lexeme where
  | scalar (v : Value)
  | openSquare
  | closeSquare
  | openBrace
  | closeBrace
  | comma
  | colon
  | stray

def hexDigit? (c : Char) : Option Nat :=
  if c.isDigit then some (c.toNat - 48)
  else if 'a' ≤ c ∧ c ≤ 'f' then some (c.toNat - 87)
  else if 'A' ≤ c ∧ c ≤ 'F' then some (c.toNat - 55)
  else none

def hex? (cs : List Char) : Option Nat :=
  cs.foldlM (fun n c => (hexDigit? c).map (16 * n + ·)) 0

def escape? (c : Char) : Option Nat :=
  if c = '\x22' || c = '\\' || c = '/' then some c.toNat
  else if c = 'b' then some 8
  else if c = 'f' then some 12
  else if c = 'n' then some 10
  else if c = 'r' then some 13
  else if c = 't' then some 9
  else none

/-- The code units that the body of a text stands for. -/
def units? : List Char → Option (List Nat)
  | [] => some []
  | '\\' :: 'u' :: a :: b :: c :: d :: cs => do
    let unit ← hex? [a, b, c, d]
    return unit :: (← units? cs)
  | '\\' :: c :: cs => do
    let unit ← escape? c
    return unit :: (← units? cs)
  | c :: cs => if c = '\\' ∨ c.toNat < 0x20 then none else (units? cs).map (c.toNat :: ·)

/-- The characters of code units, in which surrogates stand in pairs. -/
def characters? : List Nat → Option (List Char)
  | [] => some []
  | high :: low :: units =>
    if 0xD800 ≤ high ∧ high < 0xDC00 then
      if 0xDC00 ≤ low ∧ low < 0xE000 then
        (characters? units).map
          (Char.ofNat (0x10000 + (high - 0xD800) * 0x400 + (low - 0xDC00)) :: ·)
      else none
    else if 0xDC00 ≤ high ∧ high < 0xE000 then none
    else (characters? (low :: units)).map (Char.ofNat high :: ·)
  | [unit] => if 0xD800 ≤ unit ∧ unit < 0xE000 then none else some [Char.ofNat unit]

/-- A text behind its opening quote, and its length with both quotes. -/
def text? (cs : List Char) : Option (Value × Nat) := do
  let (body, rest) ← Text.takeQuoted? '\x22' cs
  let text ← characters? (← units? body)
  return (.text (String.ofList text), cs.length - rest.length + 1)

/-- The digits of a number that fit into 64 bits, and the power of ten that scales them. -/
structure Significand where
  digits : Nat
  exponent : Int
  full : Bool

/-- Takes in a digit before the point; each that does not fit scales by ten. -/
def Significand.whole (s : Significand) (c : Char) : Significand :=
  let next := 10 * s.digits + (c.toNat - 48)
  if !s.full && next < UInt64.size then { s with digits := next }
  else ⟨s.digits, s.exponent + 1, true⟩

/-- Takes in a digit behind the point, up to the first that does not fit. -/
def Significand.place (s : Significand) (c : Char) : Significand :=
  let next := 10 * s.digits + (c.toNat - 48)
  if !s.full && next < UInt64.size then ⟨next, s.exponent - 1, false⟩ else { s with full := true }

/-- The greatest power of ten that one step scales by. -/
def stepPower : Nat := 308

/-- Divides by a power of ten in steps that are numbers, as long as something is left. -/
def scaleDown : Nat → Float → Nat → Float
  | 0, x, n => x / Float.ofScientific 1 false n
  | steps + 1, x, n =>
    if n ≤ stepPower then x / Float.ofScientific 1 false n
    else if x == 0 then x
    else scaleDown steps (x / Float.ofScientific 1 false stepPower) (n - stepPower)

def scale? (digits : Nat) (exponent : Int) : Option Float :=
  let x := digits.toUInt64.toFloat
  if exponent < 0 then some (scaleDown (exponent.natAbs / stepPower) x exponent.natAbs)
  else if exponent ≤ stepPower then
    let y := x * Float.ofScientific 1 false exponent.natAbs
    if y.isInf then none else some y
  else if digits = 0 then some 0
  else none

/-- No exponent is read beyond this. -/
def exponentLimit : Nat := 0x7FFFFFFF

/-- The number with the given digits before the point, behind it if there is one, and exponent. -/
def number? (negative : Bool) (whole : List Char) (places : Option (List Char))
    (exponent : Option Int) : Option Value :=
  let s := whole.foldl Significand.whole ⟨0, 0, false⟩
  let signed (x : Float) : Value := .real (if negative then -x else x)
  match places, exponent with
  | none, none =>
    if s.full then (scale? s.digits s.exponent).map signed
    else if negative ∧ s.digits = 0 then some (signed 0)
    else
      match Number.fit? (if negative then -s.digits else s.digits) with
      | some i => some (.int i)
      | none => some (signed s.digits.toUInt64.toFloat)
  | places, exponent =>
    let s := (places.getD []).foldl Significand.place { s with full := false }
    let e := exponent.getD 0
    if e.natAbs ≤ exponentLimit then (scale? s.digits (s.exponent + e)).map signed
    else if s.digits = 0 ∨ e < 0 then some (signed 0)
    else none

def exponent? : List Char → Option (Option Int × Nat)
  | [] => some (none, 0)
  | e :: cs =>
    if e = 'e' ∨ e = 'E' then
      let (negative, sign) : Bool × Nat :=
        match cs with
        | '-' :: _ => (true, 1)
        | '+' :: _ => (false, 1)
        | _ => (false, 0)
      let ds := (cs.drop sign).takeWhile Char.isDigit
      let n : Int := Nat.ofDigitChars 10 ds 0
      if ds.isEmpty then none else some (some (if negative then -n else n), 1 + sign + ds.length)
    else some (none, 0)

def unsigned? (negative : Bool) (cs : List Char) : Option (Value × Nat) := do
  let whole := cs.takeWhile Char.isDigit
  let rest := cs.drop whole.length
  if whole.isEmpty ∨ (whole.head? = some '0' ∧ 1 < whole.length) then none
  else
    let (places, pointed) : Option (List Char) × Nat :=
      match rest with
      | '.' :: ds => (some (ds.takeWhile Char.isDigit), 1 + (ds.takeWhile Char.isDigit).length)
      | _ => (none, 0)
    if places = some [] then none
    else
      let (exponent, raised) ← exponent? (rest.drop pointed)
      return (← number? negative whole places exponent, whole.length + pointed + raised)

/-- The lexeme at the front of a text that goes on with `c` and `cs`, and its length. -/
def first (c : Char) (cs : List Char) : Lexeme × Nat :=
  let scalar? (found : Option (Value × Nat)) : Lexeme × Nat :=
    match found with
    | some (v, n) => (.scalar v, n)
    | none => (.stray, 1)
  if c = '\x22' then scalar? (text? cs)
  else if c = '-' then scalar? ((unsigned? true cs).map fun (v, n) => (v, n + 1))
  else if c.isDigit then scalar? (unsigned? false (c :: cs))
  else if "null".toList.isPrefixOf (c :: cs) then (.scalar .none, 4)
  else if "true".toList.isPrefixOf (c :: cs) then (.scalar (.bool true), 4)
  else if "false".toList.isPrefixOf (c :: cs) then (.scalar (.bool false), 5)
  else if c = '[' then (.openSquare, 1)
  else if c = ']' then (.closeSquare, 1)
  else if c = '\x7b' then (.openBrace, 1)
  else if c = '\x7d' then (.closeBrace, 1)
  else if c = ',' then (.comma, 1)
  else if c = ':' then (.colon, 1)
  else (.stray, 1)

def scanFrom : Nat → List Char → List Lexeme
  | _, [] => []
  | skip + 1, _ :: cs => scanFrom skip cs
  | 0, c :: cs =>
    if c = ' ' ∨ c = '\n' ∨ c = '\t' ∨ c = '\r' then scanFrom 0 cs
    else
      let (lexeme, length) := first c cs
      lexeme :: scanFrom (length - 1) cs

/-- An array or object that has begun, with what it holds so far. -/
inductive Frame where
  | array (items : List Value)
  | object (entries : Dict Value)
  /-- An object with the key of the next value. -/
  | entry (entries : Dict Value) (key : String)

inductive Focus where
  | value
  | firstItem
  | firstKey
  | key
  | colon (key : String)
  | done (v : Value)

structure Reading where
  frames : List Frame
  focus : Focus

/-- Arrays and objects nest less deep than this. -/
def depthLimit : Nat := 128

def descend (frames : List Frame) (frame : Frame) (focus : Focus) : Option Reading :=
  if frames.length + 1 < depthLimit then some ⟨frame :: frames, focus⟩ else none

def beginValue (frames : List Frame) : Lexeme → Option Reading
  | .scalar v => some ⟨frames, .done v⟩
  | .openSquare => descend frames (.array []) .firstItem
  | .openBrace => descend frames (.object []) .firstKey
  | _ => none

def step (r : Reading) (l : Lexeme) : Option Reading :=
  match r.focus, l, r.frames with
  | .firstItem, .closeSquare, .array _ :: frames => some ⟨frames, .done (.list [])⟩
  | .firstKey, .closeBrace, .object _ :: frames => some ⟨frames, .done (.map [])⟩
  | .value, l, frames => beginValue frames l
  | .firstItem, l, frames => beginValue frames l
  | .firstKey, .scalar (.text k), frames => some ⟨frames, .colon k⟩
  | .key, .scalar (.text k), frames => some ⟨frames, .colon k⟩
  | .colon k, .colon, .object entries :: frames => some ⟨.entry entries k :: frames, .value⟩
  | .done v, .comma, .array items :: frames => some ⟨.array (v :: items) :: frames, .value⟩
  | .done v, .closeSquare, .array items :: frames =>
    some ⟨frames, .done (.list (v :: items).reverse)⟩
  | .done v, .comma, .entry entries k :: frames => some ⟨.object (entries.set k v) :: frames, .key⟩
  | .done v, .closeBrace, .entry entries k :: frames =>
    some ⟨frames, .done (.map (entries.set k v).sorted)⟩
  | _, _, _ => none

def read? (text : String) : Option Value := do
  let r ← (scanFrom 0 text.toList).foldlM step ⟨[], .value⟩
  match r with
  | ⟨[], .done v⟩ => some v
  | _ => none

end Stencil.Json
