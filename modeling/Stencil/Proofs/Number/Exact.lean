import Mathlib.Algebra.Order.Ring.Abs
import Mathlib.Algebra.Order.Ring.Int
import Mathlib.Tactic.Linarith
import Stencil.Proofs.Number.Digits

/-!
# Exact results in 64 bits

Floored quotients, their remainders and powers come out exact wherever the way to them fits: the
corrections of a quotient rounded to zero never overflow, and a base that is squared overflows only
if the power does.
-/

namespace Stencil.Number

def Fits (n : Int) : Prop :=
  Int64.minValue.toInt ≤ n ∧ n ≤ Int64.maxValue.toInt

theorem fit?_eq_none {n : Int} : fit? n = none ↔ ¬ Fits n := by
  unfold fit? Fits
  split <;> simp_all

theorem fits_iff {n : Int} : Fits n ↔ -0x8000000000000000 ≤ n ∧ n < 0x8000000000000000 := by
  unfold Fits
  rw [Int64.toInt_minValue, Int64.toInt_maxValue]
  omega

theorem fits_toInt (i : Int64) : Fits i.toInt :=
  ⟨i.minValue_le_toInt, i.toInt_le⟩

theorem toInt_ne_zero {i : Int64} (h : i ≠ 0) : i.toInt ≠ 0 :=
  fun hi => h (Int64.toInt_inj.mp hi)

section Division

private theorem tmod_sign (m n : Int) : (0 ≤ m → 0 ≤ m.tmod n) ∧ (m ≤ 0 → m.tmod n ≤ 0) := by
  refine ⟨Int.tmod_nonneg n, fun h => ?_⟩
  have hneg : 0 ≤ (-m).tmod n := Int.tmod_nonneg n (Int.neg_nonneg_of_nonpos h)
  rw [Int.neg_tmod] at hneg
  omega

private theorem natAbs_tmod_lt (m : Int) {n : Int} (hn : n ≠ 0) : (m.tmod n).natAbs < n.natAbs := by
  rw [Int.natAbs_tmod]
  exact Nat.mod_lt _ (Int.natAbs_pos.mpr hn)

/-- The quotient rounded to zero is corrected by the sign of the dividend and its remainder by its
own sign: either both are corrected or none. -/
private theorem fdiv_fmod_eq (m : Int) {n : Int} (hn : n ≠ 0) :
    m.fdiv n = (if m.tmod n ≠ 0 ∧ decide (m < 0) ≠ decide (n < 0) then m.tdiv n - 1
      else m.tdiv n) ∧
    m.fmod n = if m.tmod n ≠ 0 ∧ decide (m.tmod n < 0) ≠ decide (n < 0) then m.tmod n + n
      else m.tmod n := by
  have hsum := Int.tmod_add_mul_tdiv m n
  obtain ⟨hpos, hneg⟩ := tmod_sign m n
  have hlt := natAbs_tmod_lt m hn
  have hsame : (m.tmod n ≠ 0 ∧ decide (m < 0) ≠ decide (n < 0)) ↔
      (m.tmod n ≠ 0 ∧ decide (m.tmod n < 0) ≠ decide (n < 0)) := by
    simp only [ne_eq, decide_eq_decide]
    omega
  have hless : m.tmod n + n + n * (m.tdiv n - 1) = m := by
    rw [Int.mul_sub]
    omega
  rw [if_congr hsame rfl rfl]
  simp only [ne_eq, decide_eq_decide]
  rcases Int.lt_or_gt_of_ne hn with hn | hn
  · rw [Int.fdiv_fmod_unique' hn]
    split <;> omega
  · rw [Int.fdiv_fmod_unique hn]
    split <;> omega

variable {a b : Int64}

private theorem divide?_eq (h : ¬ (a = Int64.minValue ∧ b = -1)) :
    divide? a b = some (a / b, a % b) :=
  if_neg h

private theorem toInt_div (h : ¬ (a = Int64.minValue ∧ b = -1)) :
    (a / b).toInt = a.toInt.tdiv b.toInt := by
  by_cases ha : a = Int64.minValue
  · exact Int64.toInt_div_of_ne_right a b fun hb => h ⟨ha, hb⟩
  · exact Int64.toInt_div_of_ne_left a b ha

/-- A quotient that leaves a remainder is far from the limits. -/
private theorem natAbs_tdiv_le {m n : Int} (hm : Fits m) (hn : n ≠ 0) (hr : m.tmod n ≠ 0) :
    (m.tdiv n).natAbs ≤ 0x4000000000000000 := by
  have hone : n.natAbs ≠ 1 := by
    intro h
    have hlt := natAbs_tmod_lt m hn
    omega
  have htwo : 2 ≤ n.natAbs := by omega
  have hdiv : m.natAbs / n.natAbs ≤ m.natAbs / 2 := Nat.div_le_div_left htwo (by decide)
  rw [Int.natAbs_tdiv]
  change m.natAbs / n.natAbs ≤ _
  rw [fits_iff] at hm
  omega

private theorem toInt_sub_one {q : Int64} (h : q.toInt.natAbs ≤ 0x4000000000000000) :
    (q - 1).toInt = q.toInt - 1 := by
  rw [Int64.toInt_sub, show (1 : Int64).toInt = 1 from rfl]
  apply Int.bmod_eq_of_le <;> omega

private theorem toInt_add_of_signs {r : Int64} (h : ¬ (r.toInt < 0 ↔ b.toInt < 0)) :
    (r + b).toInt = r.toInt + b.toInt := by
  have hr := fits_iff.mp (fits_toInt r)
  have hb := fits_iff.mp (fits_toInt b)
  rw [Int64.toInt_add]
  apply Int.bmod_eq_of_le <;> omega

theorem floorDiv?_exact (hb : b ≠ 0) (h : ¬ (a = Int64.minValue ∧ b = -1)) :
    ∃ q, floorDiv? a b = some q ∧ q.toInt = a.toInt.fdiv b.toInt := by
  have hn := toInt_ne_zero hb
  have hzero : a % b ≠ 0 ↔ a.toInt.tmod b.toInt ≠ 0 := by
    rw [ne_eq, ← Int64.toInt_inj, Int64.toInt_mod]
    rfl
  rw [floorDiv?, divide?_eq h, Option.map_some]
  refine ⟨_, rfl, ?_⟩
  rw [(fdiv_fmod_eq a.toInt hn).1]
  simp only [hzero, Int64.lt_iff_toInt_lt, Int64.toInt_zero]
  split
  · next hr =>
    have hq := natAbs_tdiv_le (fits_toInt a) hn hr.1
    rw [← toInt_div h] at hq ⊢
    exact toInt_sub_one hq
  · exact toInt_div h

theorem floorMod?_exact (hb : b ≠ 0) (h : ¬ (a = Int64.minValue ∧ b = -1)) :
    ∃ r, floorMod? a b = some r ∧ r.toInt = a.toInt.fmod b.toInt := by
  have hzero : a % b ≠ 0 ↔ a.toInt.tmod b.toInt ≠ 0 := by
    rw [ne_eq, ← Int64.toInt_inj, Int64.toInt_mod]
    rfl
  rw [floorMod?, divide?_eq h, Option.map_some]
  refine ⟨_, rfl, ?_⟩
  rw [(fdiv_fmod_eq a.toInt (toInt_ne_zero hb)).2]
  simp only [hzero, Int64.lt_iff_toInt_lt, Int64.toInt_zero, Int64.toInt_mod]
  split
  · next hr =>
    rw [← Int64.toInt_mod]
    apply toInt_add_of_signs
    rw [Int64.toInt_mod]
    simpa only [ne_eq, decide_eq_decide] using hr.2
  · exact Int64.toInt_mod a b

end Division

section Power

private theorem not_fits_mul {n k : Int} (h : ¬ Fits n) (hk : 1 ≤ k) : ¬ Fits (n * k) := by
  rw [fits_iff] at h ⊢
  rintro ⟨hlo, hhi⟩
  apply h
  constructor <;> nlinarith

/-- No square is the absolute value of the least number, so that a square that does not fit is
beyond it. -/
private theorem square_of_not_fits {n : Int} (h : ¬ Fits (n * n)) : 0x8000000000000000 < n * n := by
  by_contra hle
  have hroot : |n| ≤ 3037000499 := by
    by_contra hroot
    have hbig : 3037000500 ≤ |n| := by omega
    have hsquare := abs_mul_abs_self n
    nlinarith
  apply h
  rw [fits_iff]
  have hsquare := abs_mul_abs_self n
  have hnonneg := abs_nonneg n
  constructor <;> nlinarith

private theorem not_fits_square_power {f n : Int} (h : ¬ Fits (n * n)) (hf : f ≠ 0) {k : Nat}
    (hk : k ≠ 0) : ¬ Fits (f * (n * n) ^ k) := by
  have hbig := square_of_not_fits h
  have hone : 1 ≤ n * n := by omega
  have hpower : n * n ≤ (n * n) ^ k := le_self_pow₀ hone hk
  have hfactor : 1 ≤ |f| := Int.one_le_abs hf
  have habs : |f * (n * n) ^ k| = |f| * (n * n) ^ k := by
    rw [abs_mul, abs_of_nonneg (by omega : 0 ≤ (n * n) ^ k)]
  have hbeyond : 0x8000000000000000 < |f * (n * n) ^ k| := by
    rw [habs]
    nlinarith
  rw [fits_iff]
  rintro ⟨hlo, hhi⟩
  have hle : |f * (n * n) ^ k| ≤ 0x8000000000000000 := abs_le.mpr ⟨hlo, by omega⟩
  omega

private theorem power_halved (f n : Int) (k : Nat) :
    f * n ^ k = f * n ^ (k % 2) * (n * n) ^ (k / 2) := by
  conv_lhs => rw [← Nat.mod_add_div k 2]
  rw [pow_add, pow_mul, pow_two, mul_assoc]

private theorem not_fits_factor_power {f n : Int} (hf : Fits f) (e k : Nat)
    (h : ¬ Fits (f * n ^ (e % 2))) :
    ¬ Fits (f * n ^ (e % 2) * (n * n) ^ k) := by
  have hn : n ≠ 0 := by
    intro hn
    apply h
    rcases Nat.mod_two_eq_zero_or_one e with he | he
    · simpa [he] using hf
    · simpa [he, hn] using fits_toInt 0
  have hsquare : 1 ≤ n * n := Int.add_one_le_of_lt (mul_self_pos.mpr hn)
  exact not_fits_mul h (one_le_pow₀ hsquare)

private theorem factor_eq (factor base : Int64) (e : Nat) :
    (if e % 2 = 1 then product? factor base else some factor) =
      fit? (factor.toInt * base.toInt ^ (e % 2)) := by
  rcases Nat.mod_two_eq_zero_or_one e with he | he
  · rw [he, if_neg (by decide), pow_zero, Int.mul_one, fit?_toInt]
  · rw [he, if_pos rfl, pow_one, product?]

/-- What is multiplied up may overflow only if the power does, for the factor is zero no earlier
than the base. -/
private theorem powerFrom?_eq (factor base : Int64) (exponent : Nat)
    (h : factor.toInt = 0 → base.toInt = 0) :
    powerFrom? factor base exponent = fit? (factor.toInt * base.toInt ^ exponent) := by
  fun_induction powerFrom? factor base exponent with
  | case1 factor base => rw [pow_zero, Int.mul_one, fit?_toInt]
  | case2 factor base => rw [pow_one, product?]
  | case3 factor base exponent hzero hone ih =>
    have hhalf : exponent / 2 ≠ 0 := by omega
    rw [factor_eq, power_halved _ _ exponent]
    cases hf : fit? (factor.toInt * base.toInt ^ (exponent % 2)) with
    | none =>
      have hbeyond := not_fits_factor_power (fits_toInt factor) exponent (exponent / 2)
        (fit?_eq_none.mp hf)
      exact (fit?_eq_none.mpr hbeyond).symm
    | some factor' =>
      have hfactor' := toInt_of_fit? hf
      have hzero' : factor'.toInt = 0 → base.toInt = 0 := by
        intro h'
        rcases mul_eq_zero.mp (hfactor'.symm.trans h') with hf | hb
        · exact h hf
        · exact eq_zero_of_pow_eq_zero hb
      rw [Option.bind_some, product?, ← hfactor']
      cases hb : fit? (base.toInt * base.toInt) with
      | none =>
        -- The exponent is not used up here, so that the power has the square among its factors.
        have hbeyond := fit?_eq_none.mp hb
        have hne : factor'.toInt ≠ 0 := by
          intro h'
          apply hbeyond
          simpa [hzero' h'] using fits_toInt 0
        exact (fit?_eq_none.mpr (not_fits_square_power hbeyond hne hhalf)).symm
      | some base' =>
        have hbase' := toInt_of_fit? hb
        rw [Option.bind_some, ih _ _ fun h' => by rw [hbase', hzero' h', Int.mul_zero], hbase']

theorem power?_eq {a b : Int64} (h : b.toInt.toNat < UInt32.size) :
    power? a b = fit? (a.toInt ^ b.toInt.toNat) := by
  have hone : (1 : Int64).toInt = 1 := rfl
  rw [power?, if_neg (Nat.not_le.mpr h), powerFrom?_eq _ _ _ (by simp [hone]), hone, Int.one_mul]

/-- From the 64th power on, only the bases next to zero have powers that fit. -/
theorem fits_power_iff {n : Int} {k : Nat} (hk : 64 ≤ k) : Fits (n ^ k) ↔ n.natAbs ≤ 1 := by
  constructor
  · intro h
    by_contra hn
    have hbig : 2 ^ 64 ≤ n.natAbs ^ k :=
      calc 2 ^ 64 ≤ 2 ^ k := Nat.pow_le_pow_right (by decide) hk
        _ ≤ n.natAbs ^ k := Nat.pow_le_pow_left (by omega) k
    rw [← Int.natAbs_pow] at hbig
    rw [fits_iff] at h
    omega
  · intro h
    have hsmall : n = 0 ∨ n = 1 ∨ n = -1 := by omega
    rw [fits_iff]
    rcases hsmall with rfl | rfl | rfl
    · rw [zero_pow (by omega)]
      decide
    · rw [one_pow]
      decide
    · rcases neg_one_pow_eq_or Int k with h | h <;> rw [h] <;> decide

end Power

end Stencil.Number
