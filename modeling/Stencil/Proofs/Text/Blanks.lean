import Mathlib.Data.List.TakeWhile
import Stencil.Text.Blank

/-!
# Runs of blanks

Texts of blanks only and texts that begin with none, and how they part a text between them.
-/

namespace Stencil.Text

def Blanks (cs : List Char) : Prop :=
  ∀ c ∈ cs, isBlank c = true

def Solid : List Char → Prop
  | [] => False
  | c :: _ => isBlank c = false

theorem Solid.append {cs : List Char} (h : Solid cs) (rest : List Char) : Solid (cs ++ rest) := by
  cases cs with
  | nil => exact h.elim
  | cons c cs => exact h

theorem takeWhile_run {p : Char → Bool} {cs rest : List Char} (h : ∀ c ∈ cs, p c = true)
    (hr : ∀ d ∈ rest.head?, p d = false) : (cs ++ rest).takeWhile p = cs := by
  rw [List.takeWhile_append_of_pos h]
  cases rest with
  | nil => simp
  | cons d rest => simp [hr d rfl]

theorem dropWhile_run {p : Char → Bool} {cs rest : List Char} (h : ∀ c ∈ cs, p c = true)
    (hr : ∀ d ∈ rest.head?, p d = false) : (cs ++ rest).dropWhile p = rest := by
  rw [List.dropWhile_append_of_pos h]
  cases rest with
  | nil => simp
  | cons d rest => simp [hr d rfl]

theorem Solid.head {cs : List Char} (h : Solid cs) : ∀ d ∈ cs.head?, isBlank d = false := by
  cases cs with
  | nil => exact h.elim
  | cons c cs =>
    intro d hd
    cases hd
    exact h

theorem takeWhile_blanks {gap rest : List Char} (hg : Blanks gap) (hr : Solid rest) :
    (gap ++ rest).takeWhile isBlank = gap :=
  takeWhile_run hg hr.head

theorem dropWhile_blanks {gap rest : List Char} (hg : Blanks gap) (hr : Solid rest) :
    (gap ++ rest).dropWhile isBlank = rest :=
  dropWhile_run hg hr.head

theorem blanks_takeWhile (cs : List Char) : Blanks (cs.takeWhile isBlank) :=
  fun _ hc => List.mem_takeWhile_imp hc

theorem solid_dropWhile (cs : List Char) :
    cs.dropWhile isBlank = [] ∨ Solid (cs.dropWhile isBlank) := by
  induction cs with
  | nil => exact Or.inl rfl
  | cons c cs ih =>
    rw [List.dropWhile_cons]
    split
    · exact ih
    · rename_i hc
      exact Or.inr (by simpa only [Solid, Bool.not_eq_true] using hc)

theorem trim_between {p t q : List Char} (hp : Blanks p) (hq : Blanks q) (hne : t ≠ [])
    (ht : ∀ c ∈ t, isBlank c = false) : trim (p ++ (t ++ q)) = t := by
  have hsolid : ∀ {t : List Char}, t ≠ [] → (∀ c ∈ t, isBlank c = false) → Solid t := by
    rintro (_ | ⟨c, t⟩) hne ht
    · exact hne rfl
    · exact ht c List.mem_cons_self
  have hback : Solid t.reverse :=
    hsolid (mt List.reverse_eq_nil_iff.mp hne) fun c hc => ht c (List.mem_reverse.mp hc)
  have hblanks : Blanks q.reverse := fun c hc => hq c (List.mem_reverse.mp hc)
  rw [trim, dropEnds, dropWhile_blanks hp ((hsolid hne ht).append q), dropEnd,
    List.reverse_append, dropWhile_blanks hblanks hback, List.reverse_reverse]

theorem exists_trim (cs : List Char) :
    ∃ p q, cs = p ++ (trim cs ++ q) ∧ Blanks p ∧ Blanks q := by
  refine ⟨cs.takeWhile isBlank, ((cs.dropWhile isBlank).reverse.takeWhile isBlank).reverse, ?_,
    blanks_takeWhile cs, fun c hc => blanks_takeWhile _ c (List.mem_reverse.mp hc)⟩
  have hback : trim cs ++ ((cs.dropWhile isBlank).reverse.takeWhile isBlank).reverse =
      cs.dropWhile isBlank := by
    rw [trim, dropEnds, dropEnd, ← List.reverse_append, List.takeWhile_append_dropWhile,
      List.reverse_reverse]
  rw [hback, List.takeWhile_append_dropWhile]

end Stencil.Text
