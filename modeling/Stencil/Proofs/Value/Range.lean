import Stencil.Proofs.Number.Exact
import Stencil.Value.Builtin

/-!
# Ranges

The integers of a range are those of a progression up to its end: where a step does not fit in 64
bits, it would lead to the end or beyond it.
-/

namespace Stencil

namespace Number

def Before (stop step n : Int) : Prop :=
  0 < step ∧ n < stop ∨ step < 0 ∧ stop < n

instance (stop step n : Int) : Decidable (Before stop step n) :=
  inferInstanceAs (Decidable (_ ∨ _))

private theorem comesBefore_iff {stop step i : Int64} :
    comesBefore stop step i = true ↔ Before stop.toInt step.toInt i.toInt := by
  simp only [comesBefore, Before, Bool.or_eq_true, Bool.and_eq_true, decide_eq_true_eq,
    Int64.lt_iff_toInt_lt, Int64.toInt_zero]

private theorem Before.earlier {stop step start : Int} {t u : Nat}
    (h : Before stop step (start + u * step))
    (ht : t ≤ u) : Before stop step (start + t * step) := by
  have htu : (t : Int) ≤ u := Int.ofNat_le.mpr ht
  rcases h with ⟨hpos, h⟩ | ⟨hneg, h⟩
  · have hle : t * step ≤ u * step := Int.mul_le_mul_of_nonneg_right htu (Int.le_of_lt hpos)
    exact .inl ⟨hpos, by omega⟩
  · have hle : u * step ≤ t * step := Int.mul_le_mul_of_nonpos_right htu (Int.le_of_lt hneg)
    exact .inr ⟨hneg, by omega⟩

/-- A step from an integer of 64 bits leaves them only on the side to which it goes, where the end
is not beyond it. -/
private theorem not_before_of_overflow {stop step i : Int64}
    (h : fit? (i.toInt + step.toInt) = none) :
    ¬ Before stop.toInt step.toInt (i.toInt + step.toInt) := by
  have hbeyond := fits_iff.not.mp (fit?_eq_none.mp h)
  have hi := fits_iff.mp (fits_toInt i)
  have hstop := fits_iff.mp (fits_toInt stop)
  unfold Before
  omega

/-- The first integers of a progression, all of them before its end. -/
structure Counted (start stop step : Int) (done : Array Int64) : Prop where
  place : ∀ t (ht : t < done.size), done[t].toInt = start + t * step
  before : ∀ t < done.size, Before stop step (start + t * step)

theorem counted_empty (start stop step : Int) : Counted start stop step #[] :=
  ⟨fun _ ht => absurd ht (Nat.not_lt_zero _), fun _ ht => absurd ht (Nat.not_lt_zero _)⟩

private theorem Counted.push {start stop step : Int} {done : Array Int64} {current : Int64}
    (h : Counted start stop step done) (hcurrent : current.toInt = start + done.size * step)
    (hbefore : Before stop step current.toInt) : Counted start stop step (done.push current) where
  place t ht := by
    rw [Array.getElem_push]
    split
    · next hold => exact h.place t hold
    · next hnew =>
      have hlast : t = done.size := by
        rw [Array.size_push] at ht
        omega
      rw [hlast, hcurrent]
  before t ht := by
    rw [Array.size_push] at ht
    rcases Nat.lt_succ_iff_lt_or_eq.mp ht with hold | hlast
    · exact h.before t hold
    · rwa [hlast, ← hcurrent]

private theorem place_push (start step : Int) (done : Array Int64) (i : Int64) :
    start + done.size * step + step = start + (done.push i).size * step := by
  rw [Array.size_push, Int.natCast_succ, Int.add_mul, Int.one_mul, Int.add_assoc]

theorem countOn_counted {start : Int} {stop step current : Int64} {done : Array Int64}
    (hdone : Counted start stop.toInt step.toInt done)
    (hcurrent : current.toInt = start + done.size * step.toInt) :
    Counted start stop.toInt step.toInt (countOn stop step current done) ∧
      ¬ Before stop.toInt step.toInt
        (start + (countOn stop step current done).size * step.toInt) := by
  fun_induction countOn stop step current done with
  | case1 current done hbefore next hfit ih =>
    have hnext : next.toInt = start + (done.push current).size * step.toInt := by
      rw [toInt_of_fit? hfit, hcurrent, place_push]
    exact ih (hdone.push hcurrent (comesBefore_iff.mp hbefore)) hnext
  | case2 current done hbefore hfit =>
    refine ⟨hdone.push hcurrent (comesBefore_iff.mp hbefore), ?_⟩
    rw [← place_push, ← hcurrent]
    exact not_before_of_overflow hfit
  | case3 current done hend =>
    refine ⟨hdone, ?_⟩
    rw [← hcurrent]
    exact mt comesBefore_iff.mpr hend

end Number

namespace Value

open Number

/-- A range holds the integers that lie a number of steps from its start and before its end, all of
them and in order. -/
theorem range_exact {start stop step : Int64} (h : step ≠ 0) :
    ∃ items : List Int64,
      Builtin.range.call [.int start, .int stop, .int step] = .ok (.list (items.map .int)) ∧
      (∀ t (ht : t < items.length), items[t].toInt = start.toInt + t * step.toInt) ∧
      ∀ t : Nat, t < items.length ↔
        Before stop.toInt step.toInt (start.toInt + t * step.toInt) := by
  have hcall : Builtin.range.call [.int start, .int stop, .int step] = range start stop step := rfl
  have hstart : start.toInt = start.toInt + (#[] : Array Int64).size * step.toInt := by simp
  obtain ⟨hcounted, hend⟩ :=
    countOn_counted (counted_empty start.toInt stop.toInt step.toInt) hstart
  refine ⟨(countOn stop step start #[]).toList, ?_, fun t ht => ?_, fun t => ⟨fun ht => ?_, ?_⟩⟩
  · rw [hcall, range, if_neg h]
  · rw [Array.getElem_toList]
    exact hcounted.place t ht
  · exact hcounted.before t ht
  · -- The first integer that is not counted is not before the end, so that none after it is.
    intro hbefore
    by_contra hlast
    exact hend (hbefore.earlier (Nat.not_lt.mp hlast))

/-- Two steps of four from five below the greatest integer do not fit. -/
theorem range_exact_limit :
    let start : Int64 := Int64.maxValue - 5
    (4 : Int64) ≠ 0 ∧ Builtin.range.call [.int start, .int Int64.maxValue, .int 4] =
      .ok (.list [.int start, .int (start + 4)]) := by
  intro start
  have hstep : (4 : Int64) ≠ 0 := by decide
  obtain ⟨items, hcall, hplaces, hlength⟩ :=
    @range_exact start Int64.maxValue 4 hstep
  have htwo : 1 < items.length := (hlength 1).mpr (by decide)
  have hthree : ¬ 2 < items.length := fun hlong => absurd ((hlength 2).mp hlong) (by decide)
  match items with
  | [first, second] =>
    have hfirst : first = start := Int64.toInt_inj.mp ((hplaces 0 Nat.two_pos).trans (by simp))
    have hsecond : second = start + 4 :=
      Int64.toInt_inj.mp ((hplaces 1 Nat.one_lt_two).trans (by rfl))
    rw [hfirst, hsecond] at hcall
    exact ⟨hstep, hcall⟩
  | [] | [_] => simp at htwo
  | _ :: _ :: _ :: _ => simp at hthree

end Value

end Stencil
