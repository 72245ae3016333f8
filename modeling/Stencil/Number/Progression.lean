import Stencil.Number.Integer

/-!
# Progressions

The integers that one reaches from another by a step, up to an end.
-/

namespace Stencil.Number

/-- Whether an integer comes before the end of a progression, seen in the direction of its step. -/
def comesBefore (stop step i : Int64) : Bool :=
  (0 < step && i < stop) || (step < 0 && stop < i)

/-- How far it is to the end of a progression, and zero behind it. -/
def distance (stop step i : Int64) : Nat :=
  if 0 < step then (stop.toInt - i.toInt).toNat else (i.toInt - stop.toInt).toNat

theorem distance_lt {stop step i next : Int64} (h : comesBefore stop step i = true)
    (hnext : fit? (i.toInt + step.toInt) = some next) :
    distance stop step next < distance stop step i := by
  have hsum := toInt_of_fit? hnext
  simp only [comesBefore, Bool.or_eq_true, Bool.and_eq_true, decide_eq_true_eq,
    Int64.lt_iff_toInt_lt, Int64.toInt_zero] at h
  unfold distance
  simp only [Int64.lt_iff_toInt_lt, Int64.toInt_zero]
  split <;> omega

/-- Adds the integers from `current` on by `step` that come before `stop` to those done. The last
one is that from which a step does not fit, if there is one. -/
def countOn (stop step current : Int64) (done : Array Int64) : Array Int64 :=
  if _ : comesBefore stop step current then
    match _ : fit? (current.toInt + step.toInt) with
    | some next => countOn stop step next (done.push current)
    | none => done.push current
  else done
termination_by distance stop step current
decreasing_by exact distance_lt ‹_› ‹_›

end Stencil.Number
