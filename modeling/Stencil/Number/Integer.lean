/-!
# Integers

The integers of 64 bits: their text, and arithmetic that gives nothing where the exact result does
not fit.
-/

namespace Stencil.Number

/-- An exact integer as one of 64 bits, if it fits. -/
def fit? (n : Int) : Option Int64 :=
  if Int64.minValue.toInt ≤ n ∧ n ≤ Int64.maxValue.toInt then some (Int64.ofInt n) else none

theorem toInt_of_fit? {n : Int} {i : Int64} (h : fit? n = some i) : i.toInt = n := by
  rw [fit?, Int64.toInt_minValue, Int64.toInt_maxValue] at h
  split at h
  · next hn =>
    cases h
    exact Int64.toInt_ofInt_of_le hn.1 (by omega)
  · cases h

def naturalText (n : Nat) : String :=
  String.ofList (Nat.toDigits 10 n)

def integerText (i : Int64) : List Char :=
  if i.toInt < 0 then '-' :: Nat.toDigits 10 i.toInt.natAbs else Nat.toDigits 10 i.toInt.natAbs

/-- The number that one or more digits denote. -/
def digits? (cs : List Char) : Option Nat :=
  if !cs.isEmpty && cs.all Char.isDigit then some (Nat.ofDigitChars 10 cs 0) else none

/-- The integer that digits after at most one sign denote, if it fits. -/
def readInteger? : List Char → Option Int64
  | '-' :: cs => (digits? cs).bind fun n => fit? (-n)
  | '+' :: cs => (digits? cs).bind fun n => fit? n
  | cs => (digits? cs).bind fun n => fit? n

/-- The quotient rounded to zero and its remainder if the quotient fits; the divisor is not zero. -/
def divide? (a b : Int64) : Option (Int64 × Int64) :=
  if a = Int64.minValue ∧ b = -1 then none else some (a / b, a % b)

/-- The quotient rounded to the floor, where the one rounded to zero fits. -/
def floorDiv? (a b : Int64) : Option Int64 :=
  (divide? a b).map fun (q, r) => if r ≠ 0 ∧ decide (a < 0) ≠ decide (b < 0) then q - 1 else q

/-- The remainder of the floored quotient, where the one rounded to zero fits. -/
def floorMod? (a b : Int64) : Option Int64 :=
  (divide? a b).map fun (_, r) => if r ≠ 0 ∧ decide (r < 0) ≠ decide (b < 0) then r + b else r

def product? (a b : Int64) : Option Int64 :=
  fit? (a.toInt * b.toInt)

/-- A factor times a power of a base, which is squared while the exponent is halved. -/
def powerFrom? (factor base : Int64) (exponent : Nat) : Option Int64 :=
  if exponent = 0 then some factor
  else if exponent = 1 then product? factor base
  else
    (if exponent % 2 = 1 then product? factor base else some factor).bind fun factor =>
      (product? base base).bind fun base => powerFrom? factor base (exponent / 2)
termination_by exponent

/-- A power with an exponent that is not negative; one beyond 32 bits is not tried. -/
def power? (a b : Int64) : Option Int64 :=
  if UInt32.size ≤ b.toInt.toNat then none else powerFrom? 1 a b.toInt.toNat

end Stencil.Number
