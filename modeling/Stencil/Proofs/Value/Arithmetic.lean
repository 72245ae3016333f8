import Stencil.Expr.Eval
import Stencil.Proofs.Number.Exact

/-!
# Operators between integers

What operators between integers evaluate to, compared with the exact results.
-/

namespace Stencil

/-- The exact result of an operator between integers: quotients are rounded to the floor, and only
exponents that are not negative give an integer. -/
def BinaryOp.result? : BinaryOp → Int → Int → Option Int
  | .add, m, n => some (m + n)
  | .sub, m, n => some (m - n)
  | .mul, m, n => some (m * n)
  | .floorDiv, m, n => if n = 0 then none else some (m.fdiv n)
  | .mod, m, n => if n = 0 then none else some (m.fmod n)
  | .pow, m, n => if n < 0 then none else some (m ^ n.toNat)
  | _, _, _ => none

/-- An operator that gives integers for integers if the right one is `n`, unless it divides by
zero. -/
def BinaryOp.Integral (n : Int) : BinaryOp → Prop
  | .add | .sub | .mul | .floorDiv | .mod => True
  | .pow => 0 ≤ n
  | _ => False

namespace Value

open Number (Fits)

/-- Exact results that fit and are withheld: the remainder of the least integer by minus one, and
the powers of -1, 0 and 1 whose exponent is beyond 32 bits. -/
def Withheld (op : BinaryOp) (a b : Int64) : Prop :=
  op = .mod ∧ a = Int64.minValue ∧ b = -1 ∨
    op = .pow ∧ UInt32.size ≤ b.toInt.toNat ∧ a.toInt.natAbs ≤ 1

private theorem fitted_eq_ok {n : Int} {v : Value} :
    fitted (Number.fit? n) = .ok v ↔ ∃ i : Int64, v = int i ∧ i.toInt = n := by
  cases h : Number.fit? n with
  | none =>
    have hn := Number.fit?_eq_none.mp h
    simp only [fitted, reduceCtorEq, false_iff, not_exists, not_and]
    rintro i - rfl
    exact hn (Number.fits_toInt i)
  | some j =>
    have hj := Number.toInt_of_fit? h
    simp only [fitted, Except.ok.injEq]
    constructor
    · rintro rfl
      exact ⟨j, rfl, hj⟩
    · rintro ⟨i, rfl, hi⟩
      rw [Int64.toInt_inj.mp (hj.trans hi.symm)]

private theorem fitted_eq_overflow {n : Int} :
    fitted (Number.fit? n) = .error .overflow ↔ ¬ Fits n := by
  rw [← Number.fit?_eq_none]
  cases Number.fit? n <;> simp [fitted]

section Operators

variable {a b : Int64} {n : Int}

private theorem floorDiv?_eq (hb : b ≠ 0) :
    Number.floorDiv? a b = Number.fit? (a.toInt.fdiv b.toInt) := by
  by_cases h : a = Int64.minValue ∧ b = -1
  · obtain ⟨rfl, rfl⟩ := h
    decide
  · obtain ⟨q, hq, hexact⟩ := Number.floorDiv?_exact hb h
    rw [hq, ← hexact, Number.fit?_toInt]

private theorem integerArithmetic_mod (hb : b ≠ 0) (h : ¬ Withheld .mod a b) :
    integerArithmetic .mod a b = fitted (Number.fit? (a.toInt.fmod b.toInt)) := by
  obtain ⟨r, hr, hexact⟩ := Number.floorMod?_exact hb fun hlimit => h (.inl ⟨rfl, hlimit⟩)
  rw [integerArithmetic, if_neg hb, hr, ← hexact, Number.fit?_toInt]

private theorem integerArithmetic_pow (hb : 0 ≤ b.toInt) (h : ¬ Withheld .pow a b) :
    integerArithmetic .pow a b = fitted (Number.fit? (a.toInt ^ b.toInt.toNat)) := by
  rw [integerArithmetic, if_neg (Int.not_lt.mpr hb)]
  by_cases hlong : UInt32.size ≤ b.toInt.toNat
  · have hbase : ¬ a.toInt.natAbs ≤ 1 := fun ha => h (.inr ⟨rfl, hlong, ha⟩)
    have hlarge : 64 ≤ b.toInt.toNat := Nat.le_trans (by decide) hlong
    have hpower : ¬ Fits (a.toInt ^ b.toInt.toNat) := mt (Number.fits_power_iff hlarge).mp hbase
    rw [Number.power?, if_pos hlong, Number.fit?_eq_none.mpr hpower]
  · rw [Number.power?_eq (Nat.not_le.mp hlong)]

private theorem integerArithmetic_exact {op : BinaryOp} (h : op.result? a.toInt b.toInt = some n)
    (hwithheld : ¬ Withheld op a b) : integerArithmetic op a b = fitted (Number.fit? n) := by
  have hnonzero : b.toInt ≠ 0 → b ≠ 0 := fun hb h => hb (by rw [h]; rfl)
  cases op with
  | add => cases h; rfl
  | sub => cases h; rfl
  | mul => cases h; rfl
  | floorDiv =>
    rw [BinaryOp.result?, Option.ite_none_left_eq_some] at h
    obtain ⟨hb, hn⟩ := h
    cases hn
    rw [integerArithmetic, if_neg (hnonzero hb), floorDiv?_eq (hnonzero hb)]
  | mod =>
    rw [BinaryOp.result?, Option.ite_none_left_eq_some] at h
    obtain ⟨hb, hn⟩ := h
    cases hn
    exact integerArithmetic_mod (hnonzero hb) hwithheld
  | pow =>
    rw [BinaryOp.result?, Option.ite_none_left_eq_some] at h
    obtain ⟨hb, hn⟩ := h
    cases hn
    exact integerArithmetic_pow (Int.not_lt.mp hb) hwithheld
  | _ => cases h

private theorem integerArithmetic_withheld {op : BinaryOp} (h : Withheld op a b) :
    integerArithmetic op a b = .error .overflow := by
  rcases h with ⟨rfl, rfl, rfl⟩ | ⟨rfl, hlong, -⟩
  · have hnone : Number.floorMod? Int64.minValue (-1) = Option.none := by decide
    rw [integerArithmetic, if_neg (by decide), hnone]
    rfl
  · have hb : ¬ b.toInt < 0 := by
      intro hb
      rw [Int.toNat_of_nonpos (Int.le_of_lt hb)] at hlong
      exact absurd hlong (by decide)
    rw [integerArithmetic, if_neg hb, Number.power?, if_pos hlong]
    rfl

private theorem withheld_fits {op : BinaryOp} (h : op.result? a.toInt b.toInt = some n)
    (hwithheld : Withheld op a b) : Fits n := by
  rcases hwithheld with ⟨rfl, rfl, rfl⟩ | ⟨rfl, hlong, hbase⟩
  · have hn : some 0 = some n := h
    cases hn
    exact Number.fits_toInt 0
  · rw [BinaryOp.result?, Option.ite_none_left_eq_some] at h
    obtain ⟨-, hn⟩ := h
    cases hn
    exact (Number.fits_power_iff (Nat.le_trans (by decide) hlong)).mpr hbase

private theorem integerArithmetic_zero {op : BinaryOp} (h : op = .floorDiv ∨ op = .mod) :
    integerArithmetic op a 0 = .error .zeroDivision ∧ op.result? a.toInt 0 = Option.none := by
  rcases h with rfl | rfl <;> exact ⟨rfl, rfl⟩

private theorem result?_of_integral {op : BinaryOp} (h : op.Integral b.toInt)
    (hzero : ¬ ((op = .floorDiv ∨ op = .mod) ∧ b = 0)) :
    ∃ n, op.result? a.toInt b.toInt = some n := by
  have hdivides : op = .floorDiv ∨ op = .mod → b.toInt ≠ 0 := fun hop =>
    Number.toInt_ne_zero fun hb => hzero ⟨hop, hb⟩
  cases op with
  | add => exact ⟨_, rfl⟩
  | sub => exact ⟨_, rfl⟩
  | mul => exact ⟨_, rfl⟩
  | floorDiv => exact ⟨_, if_neg (hdivides (.inl rfl))⟩
  | mod => exact ⟨_, if_neg (hdivides (.inr rfl))⟩
  | pow => exact ⟨_, if_neg (Int.not_lt.mpr h)⟩
  | _ => cases h

private theorem number?_int {v : Value} (h : v.number? = some (.int a)) :
    (∃ t, v = bool t) ∨ v = int a := by
  cases v with
  | bool t => exact .inl ⟨t, rfl⟩
  | int i => cases h; exact .inr rfl
  | _ => cases h

private theorem binary_integers {op : BinaryOp} {x y : Value} (hx : x.number? = some (.int a))
    (hy : y.number? = some (.int b)) (h : op.Integral b.toInt) :
    binary op x y = integerArithmetic op a b := by
  have harith : arithmetic op x y = integerArithmetic op a b := by rw [arithmetic, hx, hy]
  rw [← harith]
  cases op with
  | add => rcases number?_int hx with ⟨t, rfl⟩ | rfl <;> rfl
  | mul =>
    rcases number?_int hx with ⟨t, rfl⟩ | rfl <;> rcases number?_int hy with ⟨u, rfl⟩ | rfl <;> rfl
  | sub => rfl
  | floorDiv => rfl
  | mod => rfl
  | pow => rfl
  | _ => cases h

end Operators

end Value

namespace Expr

open Number (Fits)
open Value (integerArithmetic Withheld)

variable {env : Environment} {left right : Expr} {x y : Value} {a b : Int64}

private theorem eval_integers {op : BinaryOp} (hleft : left.eval env = .ok x)
    (hright : right.eval env = .ok y) (hx : x.number? = some (.int a))
    (hy : y.number? = some (.int b)) (h : op.Integral b.toInt) :
    (binary op left right).eval env = integerArithmetic op a b := by
  rw [← Value.binary_integers hx hy h]
  cases op with
  | and => cases h
  | or => cases h
  | _ => simp only [eval, hleft, hright, bind, Except.bind]

/-- Operators between integers, truth values counting as such, give the exact result if it fits, an
overflow if it does not, and a division by zero just for divisors that are zero. The only results
that fit and are overflows all the same are those that are withheld. -/
theorem integer_arithmetic {op : BinaryOp} (hleft : left.eval env = .ok x)
    (hright : right.eval env = .ok y) (hx : x.number? = some (.int a))
    (hy : y.number? = some (.int b)) (h : op.Integral b.toInt) :
    (∀ v, (binary op left right).eval env = .ok v ↔
      ∃ i : Int64, v = .int i ∧ op.result? a.toInt b.toInt = some i.toInt ∧ ¬ Withheld op a b) ∧
    ((binary op left right).eval env = .error .overflow ↔
      ∃ n, op.result? a.toInt b.toInt = some n ∧ (¬ Fits n ∨ Withheld op a b)) ∧
    ((binary op left right).eval env = .error .zeroDivision ↔
      (op = .floorDiv ∨ op = .mod) ∧ b = 0) ∧
    ∀ n, op.result? a.toInt b.toInt = some n → Withheld op a b → Fits n := by
  rw [eval_integers hleft hright hx hy h]
  by_cases hzero : (op = .floorDiv ∨ op = .mod) ∧ b = 0
  · obtain ⟨hop, rfl⟩ := hzero
    obtain ⟨heval, hnone⟩ := Value.integerArithmetic_zero (a := a) hop
    simp [heval, hnone, hop]
  · obtain ⟨n, hn⟩ := Value.result?_of_integral (a := a) h hzero
    by_cases hwithheld : Withheld op a b
    · simp [Value.integerArithmetic_withheld hwithheld, hn, hwithheld, hzero,
        Value.withheld_fits hn hwithheld]
    · rw [Value.integerArithmetic_exact hn hwithheld]
      refine ⟨fun v => ?_, ?_, ?_, fun _ _ h => absurd h hwithheld⟩
      · rw [Value.fitted_eq_ok]
        simp [hn, hwithheld, eq_comm]
      · rw [Value.fitted_eq_overflow]
        simp [hn, hwithheld]
      · simp only [hzero, iff_false]
        cases Number.fit? n <;> simp [Value.fitted]

/-- The least integer has the remainder 0 by -1, and 1 has the powers 1. -/
theorem integer_arithmetic_withheld :
    let env : Environment := ⟨fun _ => none, fun _ _ => .error .overflow⟩
    let one : Expr := .literal (.int 1)
    let minusOne : Expr := .unary .negate one
    let least : Expr := .binary .sub (.unary .negate (.literal (.int 9223372036854775807))) one
    let long : Expr := .literal (.int 4294967296)
    (least.eval env = .ok (.int Int64.minValue) ∧ minusOne.eval env = .ok (.int (-1)) ∧
      BinaryOp.result? .mod Int64.minValue.toInt (-1) = some 0 ∧ Fits 0 ∧
      (binary .mod least minusOne).eval env = .error .overflow) ∧
    one.eval env = .ok (.int 1) ∧ long.eval env = .ok (.int 4294967296) ∧
      BinaryOp.result? .pow 1 4294967296 = some 1 ∧ Fits 1 ∧
      (binary .pow one long).eval env = .error .overflow := by
  intro env one minusOne least long
  have hone : BinaryOp.result? .pow 1 4294967296 = some 1 := by
    rw [BinaryOp.result?, if_neg (by decide), one_pow]
  exact ⟨⟨rfl, rfl, rfl, Number.fits_toInt 0, rfl⟩, rfl, rfl, hone, Number.fits_toInt 1, rfl⟩

/-- The least integer is a power of -2, which squaring reaches without an overflow. -/
theorem integer_arithmetic_power :
    let env : Environment := ⟨fun _ => none, fun _ _ => .error .overflow⟩
    let base : Expr := .unary .negate (.literal (.int 2))
    let exponent : Expr := .literal (.int 63)
    (base.eval env = .ok (.int (-2)) ∧ exponent.eval env = .ok (.int 63) ∧
      BinaryOp.Integral 63 .pow) ∧
    (binary .pow base exponent).eval env = .ok (.int Int64.minValue) := by
  intro env base exponent
  have hbase : base.eval env = .ok (.int (-2)) := rfl
  have hexponent : exponent.eval env = .ok (.int 63) := rfl
  have hpow : BinaryOp.Integral 63 .pow := Int.natCast_nonneg 63
  have hexact : BinaryOp.result? .pow (-2) 63 = some Int64.minValue.toInt := by decide
  have hwithheld : ¬ Withheld .pow (-2) 63 := by
    rintro (⟨⟨⟩, -⟩ | ⟨-, hlong, -⟩)
    exact absurd hlong (by decide)
  have h := integer_arithmetic hbase hexponent rfl rfl hpow
  exact ⟨⟨hbase, hexponent, hpow⟩, (h.1 _).mpr ⟨_, rfl, hexact, hwithheld⟩⟩

/-- The floored quotient and its remainder give the dividend back, the remainder lies between zero
and the divisor, and only the least integer has no quotient by minus one. -/
theorem floor_division (hleft : left.eval env = .ok x) (hright : right.eval env = .ok y)
    (hx : x.number? = some (.int a)) (hy : y.number? = some (.int b)) (hb : b ≠ 0) :
    (∀ q m : Int64, (binary .floorDiv left right).eval env = .ok (.int q) →
      (binary .mod left right).eval env = .ok (.int m) →
        a.toInt = q.toInt * b.toInt + m.toInt ∧
        (0 < b.toInt → 0 ≤ m.toInt ∧ m.toInt < b.toInt) ∧
        (b.toInt < 0 → b.toInt < m.toInt ∧ m.toInt ≤ 0)) ∧
    ((∃ e, (binary .floorDiv left right).eval env = .error e) ↔
      a = Int64.minValue ∧ b = -1) ∧
    (¬ (a = Int64.minValue ∧ b = -1) → ∃ q m : Int64,
      (binary .floorDiv left right).eval env = .ok (.int q) ∧
        (binary .mod left right).eval env = .ok (.int m)) := by
  have hintegral : BinaryOp.Integral b.toInt .floorDiv ∧ BinaryOp.Integral b.toInt .mod :=
    ⟨trivial, trivial⟩
  have hdiv : (binary .floorDiv left right).eval env = Value.fitted (Number.floorDiv? a b) := by
    rw [eval_integers hleft hright hx hy hintegral.1, integerArithmetic, if_neg hb]
  have hmod : (binary .mod left right).eval env = Value.fitted (Number.floorMod? a b) := by
    rw [eval_integers hleft hright hx hy hintegral.2, integerArithmetic, if_neg hb]
  by_cases hlimit : a = Int64.minValue ∧ b = -1
  · obtain ⟨rfl, rfl⟩ := hlimit
    have hnone : Number.floorDiv? Int64.minValue (-1) = none := by decide
    rw [hnone] at hdiv
    simp [hdiv, Value.fitted]
  · obtain ⟨q, hq, hq'⟩ := Number.floorDiv?_exact hb hlimit
    obtain ⟨m, hm, hm'⟩ := Number.floorMod?_exact hb hlimit
    rw [hdiv, hmod, hq, hm]
    refine ⟨?_, ?_, fun _ => ⟨q, m, rfl, rfl⟩⟩
    · rintro _ _ ⟨⟩ ⟨⟩
      have hsum := Int.fmod_add_mul_fdiv a.toInt b.toInt
      refine ⟨by rw [hq', hm', mul_comm]; omega, fun hpos => ?_, fun hneg => ?_⟩
      · rw [hm']
        exact ((Int.fdiv_fmod_unique hpos).mp ⟨rfl, rfl⟩).2
      · rw [hm']
        exact ((Int.fdiv_fmod_unique' hneg).mp ⟨rfl, rfl⟩).2
    · simp [Value.fitted, hlimit]

theorem floor_division_negative :
    let env : Environment := ⟨fun _ => none, fun _ _ => .error .overflow⟩
    let least : Expr := .binary .sub (.unary .negate (.literal (.int 9223372036854775807)))
      (.literal (.int 1))
    let three : Expr := .literal (.int 3)
    ((least.eval env = .ok (.int Int64.minValue) ∧ three.eval env = .ok (.int 3) ∧
      (3 : Int64) ≠ 0) ∧
      (binary .floorDiv least three).eval env = .ok (.int (-3074457345618258603)) ∧
      (binary .mod least three).eval env = .ok (.int 1)) ∧
    Int64.minValue.toInt = -3074457345618258603 * 3 + 1 := by
  intro env least three
  have hleast : least.eval env = .ok (.int Int64.minValue) := rfl
  have hthree : three.eval env = .ok (.int 3) := rfl
  have hne : (3 : Int64) ≠ 0 := by decide
  have hdiv : (binary .floorDiv least three).eval env = .ok (.int (-3074457345618258603)) := rfl
  have hmod : (binary .mod least three).eval env = .ok (.int 1) := rfl
  have h := (floor_division hleast hthree rfl rfl hne).1 _ _ hdiv hmod
  exact ⟨⟨⟨hleast, hthree, hne⟩, hdiv, hmod⟩, h.1⟩

end Expr

end Stencil
