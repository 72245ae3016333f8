import Stencil.Expr.Lexeme

/-! # Characters of names -/

namespace Stencil.Lexeme

theorem startsName_iff {c : Char} :
    startsName c = true ↔
      (65 ≤ c.toNat ∧ c.toNat ≤ 90) ∨ (97 ≤ c.toNat ∧ c.toNat ≤ 122) ∨ c = '_' := by
  unfold startsName Char.isAlpha Char.isUpper Char.isLower
  simp only [Bool.or_eq_true, Bool.and_eq_true, decide_eq_true_eq, ge_iff_le,
    UInt32.le_iff_toNat_le, Char.toNat_val, or_assoc]
  exact Iff.rfl

theorem isDigit_inName {c : Char} (h : c.isDigit = true) : inName c = true := by
  have hi : inName c = ((c.isAlpha || c.isDigit) || decide (c = '_')) := rfl
  rw [hi, h, Bool.or_true, Bool.true_or]

theorem startsName_inName {c : Char} (h : startsName c = true) : inName c = true := by
  have hs : startsName c = (c.isAlpha || decide (c = '_')) := rfl
  have hi : inName c = ((c.isAlpha || c.isDigit) || decide (c = '_')) := rfl
  rw [hs, Bool.or_eq_true] at h
  rw [hi]
  rcases h with h | h
  · rw [h, Bool.true_or, Bool.true_or]
  · rw [h, Bool.or_true]

theorem isDigit_not_startsName {c : Char} (h : c.isDigit = true) : startsName c = false := by
  rw [← Bool.not_eq_true, startsName_iff]
  obtain ⟨hlo, hhi⟩ := Char.isDigit_iff_toNat.mp h
  have h₀ : '0'.toNat = 48 := rfl
  have h₉ : '9'.toNat = 57 := rfl
  rintro (hu | hl | rfl)
  · omega
  · omega
  · exact absurd h (by decide)

theorem inName_not_gap {c : Char} (h : inName c = true) : isGap c = false := by
  cases hg : isGap c with
  | false => rfl
  | true =>
    simp only [isGap, Bool.or_eq_true, decide_eq_true_eq] at hg
    rcases hg with ((rfl | rfl) | rfl) | rfl <;> exact absurd h (by decide)

end Stencil.Lexeme
