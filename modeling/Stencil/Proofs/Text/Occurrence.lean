import Mathlib.Data.List.Basic
import Stencil.Text.Search

/-!
# Occurrences

What is found, split off, counted and replaced are the same occurrences of one list in another.
-/

namespace Stencil.Text

variable {α : Type}

private theorem intercalate_modifyHead (new : List α) (x : α) {parts : List (List α)}
    (h : parts ≠ []) :
    new.intercalate (parts.modifyHead (x :: ·)) = x :: new.intercalate parts := by
  cases parts with
  | nil => exact absurd rfl h
  | cons first rest => rw [List.modifyHead_cons, List.intercalate_cons_cons_left]

variable [BEq α]

section Search

variable [LawfulBEq α] {part whole : List α}

theorem find?_eq_none : find? part whole = none ↔ ¬ part <:+: whole := by
  induction whole with
  | nil => cases part <;> simp [find?]
  | cons x xs ih =>
    rw [find?, List.infix_cons_iff, ← List.isPrefixOf_iff_prefix]
    split
    · next hp => simp [hp]
    · next hp => simp [hp, ih]

omit [BEq α] [LawfulBEq α] in
private theorem least_zero (hp : part <+: whole) (i : Nat) : some 0 = some i ↔
    part <+: whole.drop i ∧ ∀ j < i, ¬ part <+: whole.drop j := by
  rw [Option.some_inj]
  constructor
  · rintro rfl
    exact ⟨hp, fun j hj => absurd hj (Nat.not_lt_zero j)⟩
  · rintro ⟨-, hleast⟩
    by_contra hi
    exact hleast 0 (Nat.pos_of_ne_zero (Ne.symm hi)) hp

theorem find?_eq_some {i : Nat} : find? part whole = some i ↔
    part <+: whole.drop i ∧ ∀ j < i, ¬ part <+: whole.drop j := by
  induction whole generalizing i with
  | nil =>
    cases part with
    | nil => exact least_zero List.nil_prefix i
    | cons y ys => simp [find?]
  | cons x xs ih =>
    rw [find?]
    by_cases hp : part <+: x :: xs
    · rw [if_pos (List.isPrefixOf_iff_prefix.mpr hp)]
      exact least_zero hp i
    · rw [if_neg (mt List.isPrefixOf_iff_prefix.mp hp)]
      cases i with
      | zero => simp [hp]
      | succ i =>
        simp only [Option.map_eq_some_iff, Nat.add_right_cancel_iff, exists_eq_right, ih,
          Nat.forall_lt_succ_left', List.drop_zero, List.drop_succ_cons, hp, not_false_eq_true,
          true_and]

theorem find?_le {i : Nat} (h : find? part whole = some i) :
    i + part.length ≤ whole.length := by
  obtain ⟨hp, hleast⟩ := find?_eq_some.mp h
  have hi : i ≤ whole.length := by
    by_contra hbeyond
    rw [List.drop_eq_nil_of_le (by omega)] at hp
    refine hleast whole.length (by omega) ?_
    rwa [List.drop_length]
  have hlength := hp.length_le
  rw [List.length_drop] at hlength
  omega

theorem occurs_iff : occurs part whole = true ↔ part <:+: whole := by
  rw [occurs, ← not_iff_not, ← find?_eq_none]
  simp

private theorem countAfter_pos_iff (hpart : part ≠ []) :
    0 < countAfter part 0 whole ↔ part <:+: whole := by
  induction whole with
  | nil => simpa [countAfter] using hpart
  | cons x xs ih =>
    rw [countAfter, List.infix_cons_iff, ← List.isPrefixOf_iff_prefix]
    split
    · next hp => simp [hp]
    · next hp => simp [hp, ih]

theorem countOf_pos_iff : 0 < countOf part whole ↔ part <:+: whole := by
  rw [countOf]
  split
  · next hempty => simp [List.isEmpty_iff.mp hempty]
  · next hne => exact countAfter_pos_iff (by simpa using hne)

end Search

section Splitting

private theorem splitAfter_ne_nil (separator : List α) (skip : Nat) (xs : List α) :
    splitAfter separator skip xs ≠ [] := by
  fun_induction splitAfter separator skip xs with
  | case1 => simp
  | case2 skip x xs ih => exact ih
  | case3 x xs hp ih => simp
  | case4 x xs hp ih => simpa using ih

private theorem length_splitAfter (separator : List α) (skip : Nat) (xs : List α) :
    (splitAfter separator skip xs).length = countAfter separator skip xs + 1 := by
  fun_induction splitAfter separator skip xs with
  | case1 => simp [countAfter]
  | case2 skip x xs ih => rw [ih, countAfter]
  | case3 x xs hp ih => rw [List.length_cons, ih, countAfter, if_pos hp]
  | case4 x xs hp ih => rw [List.length_modifyHead, ih, countAfter, if_neg hp]

private theorem intercalate_splitAfter (old new : List α) (skip : Nat) (xs : List α) :
    new.intercalate (splitAfter old skip xs) = replaceAfter old new skip xs := by
  fun_induction splitAfter old skip xs with
  | case1 => simp [replaceAfter, List.intercalate]
  | case2 skip x xs ih => rw [ih, replaceAfter]
  | case3 x xs hp ih =>
    rw [List.intercalate_cons_of_ne_nil (splitAfter_ne_nil old _ xs), List.nil_append, ih,
      replaceAfter, if_pos hp]
  | case4 x xs hp ih =>
    rw [intercalate_modifyHead _ _ (splitAfter_ne_nil old _ xs), ih, replaceAfter, if_neg hp]

private theorem splitAfter_head {separator : List α} {skip : Nat} {xs first : List α}
    {rest : List (List α)}
    (hsplit : splitAfter separator skip xs = first :: rest) : first <+: xs.drop skip := by
  fun_induction splitAfter separator skip xs generalizing first rest with
  | case1 =>
    obtain ⟨rfl, -⟩ := List.cons.inj hsplit
    exact List.nil_prefix
  | case2 skip x xs ih => exact ih hsplit
  | case3 x xs hp ih =>
    obtain ⟨rfl, -⟩ := List.cons.inj hsplit
    exact List.nil_prefix
  | case4 x xs hp ih =>
    obtain ⟨head, tail, hparts⟩ := List.exists_cons_of_ne_nil (splitAfter_ne_nil separator 0 xs)
    rw [hparts, List.modifyHead_cons] at hsplit
    obtain ⟨rfl, -⟩ := List.cons.inj hsplit
    exact List.cons_prefix_cons.mpr ⟨rfl, ih hparts⟩

variable {separator : List α} (h : separator ≠ [])
include h

theorem length_split (whole : List α) :
    (split separator whole).length = countOf separator whole + 1 := by
  rw [split, length_splitAfter, countOf, if_neg (by simpa using h)]

theorem intercalate_split (new whole : List α) :
    new.intercalate (split separator whole) = replace separator new whole := by
  rw [split, intercalate_splitAfter, replace, if_neg (by simpa using h)]

section Lawful

variable [LawfulBEq α]

/-- An occurrence that is replaced by itself is what has been skipped. -/
private theorem replaceAfter_self (skip : Nat) (xs : List α) :
    replaceAfter separator separator skip xs = xs.drop skip := by
  fun_induction replaceAfter separator separator skip xs with
  | case1 => simp
  | case2 skip x xs ih => rw [ih, List.drop_succ_cons]
  | case3 x xs hp ih =>
    obtain ⟨y, ys, rfl⟩ := List.exists_cons_of_ne_nil h
    obtain ⟨rest, hrest⟩ := List.isPrefixOf_iff_prefix.mp hp
    rw [List.cons_append] at hrest
    obtain ⟨rfl, rfl⟩ := List.cons.inj hrest
    rw [ih, List.length_cons, Nat.add_sub_cancel, List.drop_left, List.drop_zero, List.cons_append]
  | case4 x xs hp ih => rw [ih, List.drop_zero, List.drop_zero]

theorem replace_self (whole : List α) : replace separator separator whole = whole := by
  rw [replace, if_neg (by simpa using h), replaceAfter_self h, List.drop_zero]

/-- A part runs up to the first occurrence, so that none lies in it. -/
private theorem splitAfter_free {skip : Nat} {xs part : List α}
    (hpart : part ∈ splitAfter separator skip xs) : ¬ separator <:+: part := by
  fun_induction splitAfter separator skip xs generalizing part with
  | case1 =>
    rw [List.mem_singleton.mp hpart, List.infix_nil]
    exact h
  | case2 skip x xs ih => exact ih hpart
  | case3 x xs hp ih =>
    rcases List.mem_cons.mp hpart with rfl | hrest
    · rwa [List.infix_nil]
    · exact ih hrest
  | case4 x xs hp ih =>
    obtain ⟨head, tail, hparts⟩ := List.exists_cons_of_ne_nil (splitAfter_ne_nil separator 0 xs)
    rw [hparts] at ih hpart
    rcases List.mem_cons.mp hpart with rfl | hrest
    · rw [List.infix_cons_iff]
      rintro (hfirst | hlater)
      · -- The part begins what it is cut from, where there is no occurrence at the front.
        have hhead : x :: head <+: x :: xs :=
          List.cons_prefix_cons.mpr ⟨rfl, splitAfter_head hparts⟩
        exact hp (List.isPrefixOf_iff_prefix.mpr (hfirst.trans hhead))
      · exact ih List.mem_cons_self hlater
    · exact ih (List.mem_cons_of_mem _ hrest)

theorem not_infix_of_mem_split {part whole : List α} (hpart : part ∈ split separator whole) :
    ¬ separator <:+: part :=
  splitAfter_free h hpart

end Lawful

end Splitting

end Stencil.Text
