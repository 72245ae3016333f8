import Stencil.Text.Quoted

/-! # Quoted text read back -/

namespace Stencil.Text

theorem takeQuoted?_backslash (mark c : Char) (cs : List Char) :
    takeQuoted? mark ('\\' :: c :: cs) =
      (takeQuoted? mark cs).map fun (body, rest) => ('\\' :: c :: body, rest) := by
  rw [takeQuoted?]

theorem takeQuoted?_cons {c : Char} (mark : Char) (cs : List Char) (h : c ≠ '\\') :
    takeQuoted? mark (c :: cs) =
      if c = mark then some ([], cs)
      else (takeQuoted? mark cs).map fun (body, rest) => (c :: body, rest) := by
  rw [takeQuoted?]
  · intro hc
    exact (h hc).elim
  · intro d ds hd
    cases hd
    exact (h rfl).elim

private theorem unescaped_cons {c : Char} (cs : List Char) (h : c ≠ '\\') :
    unescaped (c :: cs) = c :: unescaped cs := by
  rw [unescaped]
  · intro hc
    exact (h hc).elim
  · intro d ds hd
    cases hd
    exact (h rfl).elim

private theorem escaped_cases {mark : Char} (hm : mark = '\x27' ∨ mark = '\x22') (c : Char) :
    (escaped mark c = [c] ∧ c ≠ '\\' ∧ c ≠ mark) ∨
      ∃ d, escaped mark c = ['\\', d] ∧ ∀ cs, unescaped ('\\' :: d :: cs) = c :: unescaped cs := by
  unfold escaped
  by_cases h₁ : c = '\\'
  · subst h₁
    exact .inr ⟨'\\', rfl, fun cs => by simp [unescaped]⟩
  by_cases h₂ : c = '\n'
  · subst h₂
    exact .inr ⟨'n', rfl, fun cs => by simp [unescaped]⟩
  by_cases h₃ : c = '\t'
  · subst h₃
    exact .inr ⟨'t', rfl, fun cs => by simp [unescaped]⟩
  by_cases h₄ : c = '\r'
  · subst h₄
    exact .inr ⟨'r', rfl, fun cs => by simp [unescaped]⟩
  by_cases h₅ : c = mark
  · subst h₅
    refine .inr ⟨c, by simp [h₁, h₂, h₃, h₄], fun cs => ?_⟩
    rcases hm with rfl | rfl <;> simp [unescaped]
  · exact .inl ⟨by simp [h₁, h₂, h₃, h₄, h₅], h₁, h₅⟩

theorem quoteMark_cases (cs : List Char) : quoteMark cs = '\x27' ∨ quoteMark cs = '\x22' := by
  unfold quoteMark
  split
  · exact .inr rfl
  · exact .inl rfl

/-- No character inside quotes ends them. -/
theorem takeQuoted?_escaped {mark : Char} (hm : mark = '\x27' ∨ mark = '\x22')
    (cs rest : List Char) :
    takeQuoted? mark (cs.flatMap (escaped mark) ++ mark :: rest) =
      some (cs.flatMap (escaped mark), rest) := by
  induction cs with
  | nil =>
    have hb : mark ≠ '\\' := by rcases hm with rfl | rfl <;> decide
    rw [List.flatMap_nil, List.nil_append, takeQuoted?_cons _ _ hb, if_pos rfl]
  | cons c cs ih =>
    rw [List.flatMap_cons]
    rcases escaped_cases hm c with ⟨he, hb, hc⟩ | ⟨d, he, -⟩
    · rw [he, List.singleton_append, List.cons_append, takeQuoted?_cons _ _ hb, if_neg hc, ih]
      rfl
    · rw [he]
      simp only [List.cons_append, List.nil_append]
      rw [takeQuoted?_backslash, ih]
      rfl

theorem unescaped_escaped {mark : Char} (hm : mark = '\x27' ∨ mark = '\x22') (cs : List Char) :
    unescaped (cs.flatMap (escaped mark)) = cs := by
  induction cs with
  | nil => rfl
  | cons c cs ih =>
    rw [List.flatMap_cons]
    rcases escaped_cases hm c with ⟨he, hb, -⟩ | ⟨d, he, hd⟩
    · rw [he, List.singleton_append, unescaped_cons _ hb, ih]
    · rw [he]
      simp only [List.cons_append, List.nil_append]
      rw [hd, ih]

end Stencil.Text
