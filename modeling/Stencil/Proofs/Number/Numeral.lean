import Mathlib.Data.List.Induction
import Stencil.Proofs.Number.Digits
import Stencil.Proofs.Text.Blanks

/-!
# Numerals

What digits denote, said digit by digit, and the reading of them with a sign and with blanks around.
-/

namespace Stencil.Number

/-- The number that one or more decimal digits denote. Zeros may lead. -/
inductive Denotes : List Char → Nat → Prop where
  | digit {c : Char} : c.isDigit = true → Denotes [c] (c.toNat - '0'.toNat)
  | next {cs : List Char} {n : Nat} {c : Char} : Denotes cs n → c.isDigit = true →
      Denotes (cs ++ [c]) (10 * n + (c.toNat - '0'.toNat))

/-- The integer that digits after at most one sign denote. -/
inductive Signed : List Char → Int → Prop where
  | plain {cs : List Char} {n : Nat} : Denotes cs n → Signed cs n
  | plus {cs : List Char} {n : Nat} : Denotes cs n → Signed ('+' :: cs) n
  | minus {cs : List Char} {n : Nat} : Denotes cs n → Signed ('-' :: cs) (-n)

variable {cs : List Char} {n : Nat} {m : Int}

private theorem digits?_eq_some : digits? cs = some n ↔
    cs ≠ [] ∧ (∀ c ∈ cs, c.isDigit = true) ∧ Nat.ofDigitChars 10 cs 0 = n := by
  rw [digits?, Option.ite_none_right_eq_some, Bool.and_eq_true, List.all_eq_true,
    Bool.not_eq_true', List.isEmpty_eq_false_iff, Option.some.injEq, and_assoc]

theorem Denotes.digits (h : Denotes cs n) : ∀ c ∈ cs, c.isDigit = true := by
  induction h with
  | digit hc => simpa using hc
  | next _ hc ih => exact List.forall_mem_append.mpr ⟨ih, by simpa using hc⟩

theorem Denotes.ne_nil (h : Denotes cs n) : cs ≠ [] := by
  cases h <;> simp

private theorem Denotes.value (h : Denotes cs n) : Nat.ofDigitChars 10 cs 0 = n := by
  induction h with
  | digit => rw [Nat.ofDigitChars_cons, Nat.ofDigitChars_nil, Nat.mul_zero, Nat.zero_add]
  | next _ _ ih => rw [Nat.ofDigitChars_append, ih, Nat.ofDigitChars_cons, Nat.ofDigitChars_nil]

theorem denotes_ofDigitChars (hne : cs ≠ []) (h : ∀ c ∈ cs, c.isDigit = true) :
    Denotes cs (Nat.ofDigitChars 10 cs 0) := by
  induction cs using List.reverseRecOn with
  | nil => exact absurd rfl hne
  | append_singleton cs c ih =>
    obtain ⟨hfront, hlast⟩ := List.forall_mem_append.mp h
    have hc := hlast c List.mem_cons_self
    rw [Nat.ofDigitChars_append, Nat.ofDigitChars_cons, Nat.ofDigitChars_nil]
    by_cases hnil : cs = []
    · rw [hnil, Nat.ofDigitChars_nil, Nat.mul_zero, Nat.zero_add]
      exact .digit hc
    · exact .next (ih hnil hfront) hc

theorem denotes_iff : Denotes cs n ↔ digits? cs = some n := by
  rw [digits?_eq_some]
  constructor
  · intro h
    exact ⟨h.ne_nil, h.digits, h.value⟩
  · rintro ⟨hne, hdigits, rfl⟩
    exact denotes_ofDigitChars hne hdigits

theorem Denotes.readInteger? (h : Denotes cs n) : readInteger? cs = fit? n := by
  rw [readInteger?_digits h.digits, denotes_iff.mp h, Option.bind_some]

theorem Denotes.readInteger?_large (h : Denotes cs n) (hn : Int64.maxValue.toInt < n) :
    Number.readInteger? cs = none := by
  rw [h.readInteger?, fit?, if_neg fun hfits => Int.not_le.mpr hn hfits.2]

private theorem Signed.readInteger? (h : Signed cs m) : Number.readInteger? cs = fit? m := by
  cases h with
  | plain h => exact h.readInteger?
  | plus h => rw [Number.readInteger?, denotes_iff.mp h, Option.bind_some]
  | minus h => rw [Number.readInteger?, denotes_iff.mp h, Option.bind_some]

private theorem readInteger?_eq_some {i : Int64} :
    readInteger? cs = some i ↔ Signed cs i.toInt := by
  constructor
  · intro h
    have hdigits : ∀ {cs : List Char} {f : Nat → Int},
        ((digits? cs).bind fun n => fit? (f n)) = some i → ∃ n, Denotes cs n ∧ i.toInt = f n := by
      intro cs f h
      obtain ⟨n, hn, hf⟩ := Option.bind_eq_some_iff.mp h
      exact ⟨n, denotes_iff.mpr hn, toInt_of_fit? hf⟩
    unfold readInteger? at h
    split at h
    all_goals
      obtain ⟨n, hn, hi⟩ := hdigits h
      rw [hi]
    · exact .minus hn
    · exact .plus hn
    · exact .plain hn
  · intro h
    rw [h.readInteger?, fit?_toInt]

private theorem denotes_toDigits (n : Nat) : Denotes (Nat.toDigits 10 n) n :=
  denotes_iff.mpr (digits?_toDigits n)

theorem denotes_integerText {i : Int64} (h : 0 ≤ i.toInt) :
    Denotes (integerText i) i.toInt.natAbs := by
  rw [integerText, if_neg (Int.not_lt.mpr h)]
  exact denotes_toDigits _

theorem signed_integerText (i : Int64) : Signed (integerText i) i.toInt := by
  by_cases hi : i.toInt < 0
  · have hsigned : Signed (integerText i) (-i.toInt.natAbs) := by
      rw [integerText, if_pos hi]
      exact .minus (denotes_toDigits _)
    rwa [Int.ofNat_natAbs_of_nonpos (Int.le_of_lt hi), Int.neg_neg] at hsigned
  · have hpos : 0 ≤ i.toInt := Int.not_lt.mp hi
    have hsigned := Signed.plain (denotes_integerText hpos)
    rwa [Int.natAbs_of_nonneg hpos] at hsigned

private theorem isDigit_not_blank {c : Char} (h : c.isDigit = true) : Text.isBlank c = false := by
  obtain ⟨hlow, hhigh⟩ := Char.isDigit_iff_toNat.mp h
  have h0 : '0'.toNat = 48 := rfl
  have h9 : '9'.toNat = 57 := rfl
  simp only [Text.isBlank, Bool.or_eq_false_iff, Bool.and_eq_false_iff, decide_eq_false_iff_not,
    beq_eq_false_iff_ne]
  omega

private theorem Signed.ne_nil (h : Signed cs m) : cs ≠ [] := by
  cases h with
  | plain h => exact h.ne_nil
  | plus => exact List.cons_ne_nil _ _
  | minus => exact List.cons_ne_nil _ _

private theorem Signed.not_blank (h : Signed cs m) : ∀ c ∈ cs, Text.isBlank c = false := by
  have hdigits : ∀ {cs : List Char} {n : Nat}, Denotes cs n → ∀ c ∈ cs, Text.isBlank c = false :=
    fun h c hc => isDigit_not_blank (h.digits c hc)
  cases h with
  | plain h => exact hdigits h
  | plus h => exact List.forall_mem_cons.mpr ⟨by decide, hdigits h⟩
  | minus h => exact List.forall_mem_cons.mpr ⟨by decide, hdigits h⟩

theorem readInteger?_trim {i : Int64} : readInteger? (Text.trim cs) = some i ↔
    ∃ p t q, cs = p ++ (t ++ q) ∧ Text.Blanks p ∧ Text.Blanks q ∧ Signed t i.toInt := by
  constructor
  · intro h
    obtain ⟨p, q, hcs, hp, hq⟩ := Text.exists_trim cs
    exact ⟨p, Text.trim cs, q, hcs, hp, hq, readInteger?_eq_some.mp h⟩
  · rintro ⟨p, t, q, rfl, hp, hq, ht⟩
    rw [Text.trim_between hp hq ht.ne_nil ht.not_blank]
    exact readInteger?_eq_some.mpr ht

end Stencil.Number
