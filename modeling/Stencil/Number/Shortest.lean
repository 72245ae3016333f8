/-!
# Shortest decimals

The fewest decimal digits that tell a positive binary number from its neighbours. The number is
`m * 2 ^ q`; every real nearer to it than to a neighbour reads back as it, the midpoints too when
`m` is even.
-/

namespace Stencil.Number

def twoPow (n : Nat) : Nat :=
  1 <<< n

def tenPow (n : Nat) : Nat :=
  Nat.pow 10 n

/-- A finite positive binary number of double precision. -/
structure Binary where
  mantissa : Nat
  exponent : Int

def Binary.ofBits (bits : UInt64) : Binary :=
  let fraction := (bits % (1 <<< 52)).toNat
  let scale := ((bits >>> 52) % (1 <<< 11)).toNat
  if scale = 0 then ⟨fraction, -1074⟩ else ⟨fraction + twoPow 52, scale - 1075⟩

structure Decimal where
  digits : Nat
  exponent : Int

/-- The number, the half gaps below and above it, and the unit of a decimal grid as multiples of
one common fraction. -/
structure Grid where
  value : Nat
  below : Nat
  above : Nat
  unit : Nat

/-- The grid of the multiples of `10 ^ k` for a number. Below a power of two the gap is half as
wide, except at the least one. -/
def Binary.grid (b : Binary) (k : Int) : Grid :=
  let narrow := b.mantissa = twoPow 52 ∧ b.exponent ≠ -1074
  let binary := twoPow b.exponent.toNat * tenPow (-k).toNat
  let decimal := twoPow (-b.exponent).toNat * tenPow k.toNat
  ⟨4 * b.mantissa * binary, if narrow then binary else 2 * binary, 2 * binary, 4 * decimal⟩

/-- Whether a multiple of the grid's unit reads back as the number. -/
def Grid.readsBack (g : Grid) (closed : Bool) (n : Nat) : Bool :=
  if n * g.unit ≤ g.value then
    if closed then g.value - n * g.unit ≤ g.below else g.value - n * g.unit < g.below
  else
    if closed then n * g.unit - g.value ≤ g.above else n * g.unit - g.value < g.above

/-- The multiple of the unit nearest to the number among its two neighbours that read back; a tie
goes up. -/
def Grid.nearest? (g : Grid) (closed : Bool) : Option Nat :=
  let low := g.value / g.unit
  let high := low + 1
  match g.readsBack closed low && low != 0, g.readsBack closed high with
  | true, true => some (if g.value - low * g.unit < high * g.unit - g.value then low else high)
  | true, false => some low
  | false, true => some high
  | false, false => none

/-- The exponent of the first digit of a number: the greatest `k` with `10 ^ k` at most it. Below
one it is read off the reciprocal rounded up. -/
def Binary.magnitude (b : Binary) : Int :=
  let divisor := twoPow (-b.exponent).toNat
  let whole := b.mantissa * twoPow b.exponent.toNat / divisor
  let inverse := (divisor + b.mantissa - 1) / b.mantissa
  if whole ≠ 0 then (Nat.toDigits 10 whole).length - 1
  else -((Nat.toDigits 10 (inverse - 1)).length : Int)

/-- Tries the grids from the coarsest on. -/
def Binary.shortestFrom (b : Binary) (closed : Bool) : Nat → Int → Decimal
  | 0, k => ⟨(b.grid k).value / (b.grid k).unit, k⟩
  | more + 1, k =>
    match (b.grid k).nearest? closed with
    | some n => ⟨n, k⟩
    | none => b.shortestFrom closed more (k - 1)

/-- The decimal of fewest digits that reads back as the number, of those the nearest. Seventeen
digits always do. -/
def Binary.shortest (b : Binary) : Decimal :=
  b.shortestFrom (b.mantissa % 2 = 0) 18 (b.magnitude + 1)

end Stencil.Number
