import Stencil.Number.Integer

/-! # Digits read back -/

namespace Stencil.Number

theorem fit?_toInt (i : Int64) : fit? i.toInt = some i := by
  have hlo := i.le_toInt
  have hhi := i.toInt_lt
  rw [fit?, Int64.toInt_minValue, Int64.toInt_maxValue, if_pos (by omega), Int64.ofInt_toInt]

theorem digits?_toDigits (n : Nat) : digits? (Nat.toDigits 10 n) = some n := by
  have hall : (Nat.toDigits 10 n).all Char.isDigit = true := by
    rw [List.all_eq_true]
    intro c hc
    exact Nat.isDigit_of_mem_toDigits (by decide) (by decide) hc
  have hne : (Nat.toDigits 10 n).isEmpty = false := by
    rw [List.isEmpty_eq_false_iff]
    exact Nat.toDigits_ne_nil
  rw [digits?, hall, hne, if_pos (by decide), Nat.ofDigitChars_ten_toDigits]

theorem readInteger?_digits {cs : List Char} (h : ∀ c ∈ cs, c.isDigit = true) :
    readInteger? cs = (digits? cs).bind fun n => fit? n := by
  cases cs with
  | nil => rfl
  | cons c cs =>
    have hc := h c List.mem_cons_self
    unfold readInteger?
    split
    · next hs =>
      cases hs
      exact absurd hc (by decide)
    · next hs =>
      cases hs
      exact absurd hc (by decide)
    · rfl

theorem readInteger?_nonneg {cs : List Char} {i : Int64} (h : ∀ c ∈ cs, c.isDigit = true)
    (hi : readInteger? cs = some i) : 0 ≤ i.toInt := by
  rw [readInteger?_digits h] at hi
  obtain ⟨n, -, hn⟩ := Option.bind_eq_some_iff.mp hi
  rw [toInt_of_fit? hn]
  exact Int.natCast_nonneg n

theorem toInt_neg {i : Int64} (h : i ≠ Int64.minValue) : (-i).toInt = -i.toInt := by
  have hne : i.toInt ≠ Int64.minValue.toInt := fun he => h (Int64.toInt_inj.mp he)
  have hlo := i.le_toInt
  have hhi := i.toInt_lt
  rw [Int64.toInt_minValue] at hne
  rw [Int64.toInt_neg]
  apply Int.bmod_eq_of_le <;> omega

theorem integerText_neg {i : Int64} (h : i ≠ Int64.minValue) (hi : i.toInt < 0) :
    integerText i = '-' :: integerText (-i) := by
  have hneg := toInt_neg h
  rw [integerText, if_pos hi, integerText, hneg, if_neg (by omega), Int.natAbs_neg]

end Stencil.Number
