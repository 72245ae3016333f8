import Mathlib.Data.List.Induction
import Stencil.Proofs.Template.Effect
import Stencil.Proofs.Template.Offence

/-!
# The token to blame

Whatever tags the host supplies, tokens fail to make a block for one of them: the first that is
refused where it stands, or else the tag of the innermost block that is still open. The fault is on
its line.
-/

namespace Stencil

namespace Assembly

variable {builtins : Bool} {custom : List CustomTag} {a b : Assembly} {t : Token}
variable {frame : Frame} {frames : List Frame} {body : Block} {line : Nat} {content : List Char}
variable {fault : Fault}

private def lines (a : Assembly) : List Nat :=
  a.frames.map Frame.line

private theorem formula_line {text : List Char} (h : formula line text = .error fault) :
    fault.2 = line := by
  obtain ⟨e, -, rfl⟩ := onLine_eq_error.mp h
  rfl

private theorem header_line {h : Header} (hfault : a.header line h = .error fault) :
    fault.2 = line := by
  cases h with
  | choice condition =>
    rcases bind_eq_error.mp hfault with hf | ⟨f, -, hf⟩
    · exact formula_line hf
    · cases hf
  | loop names items =>
    rcases bind_eq_error.mp hfault with ht | ⟨targets, -, hrest⟩
    · obtain ⟨e, -, rfl⟩ := onLine_eq_error.mp ht
      rfl
    · rcases bind_eq_error.mp hrest with hf | ⟨f, -, hf⟩
      · exact formula_line hf
      · cases hf
  | insertion target =>
    rcases bind_eq_error.mp hfault with hf | ⟨f, -, hf⟩
    · exact formula_line hf
    · cases hf
  | captured tag => cases hfault

private theorem within_line (h : within frame frames body line content = .error fault) :
    fault.2 = line := by
  unfold within at h
  cases ho : frame.opening with
  | clause done condition =>
    simp only [ho] at h
    split at h
    · rcases bind_eq_error.mp h with hf | ⟨f, -, hf⟩
      · exact formula_line hf
      · cases hf
    · cases h
    · cases h
    · cases h
      rfl
  | otherwise clauses =>
    simp only [ho] at h
    split at h <;> cases h <;> rfl
  | loop targets unpack items =>
    simp only [ho] at h
    split at h <;> cases h
    rfl
  | captured tag =>
    simp only [ho] at h
    split at h <;> cases h
    rfl

private theorem step_line (h : step builtins custom a t = .error fault) :
    fault.2 = t.line ∧ t.kind ≠ .text := by
  unfold step at h
  split at h
  · cases h
  · rename_i hk
    rcases bind_eq_error.mp h with hf | ⟨f, -, hf⟩
    · obtain ⟨e, -, rfl⟩ := onLine_eq_error.mp hf
      exact ⟨rfl, by simp [hk]⟩
    · cases hf
  · rename_i hk
    refine ⟨?_, by simp [hk]⟩
    split at h
    · exact header_line h
    · split at h
      · cases h
        rfl
      · exact within_line h

/-- A token leaves the open blocks as they are, opens one on its line or closes the innermost. -/
private theorem step_lines (h : step builtins custom a t = .ok b) :
    b.lines = a.lines ∨ (t.kind = .block ∧ b.lines = t.line :: a.lines) ∨
      ∃ line, a.lines = line :: b.lines := by
  obtain ⟨e, hinside, hkind, rfl, -⟩ := step_effect h
  obtain ⟨frames, current⟩ := a
  cases e with
  | adds step => exact .inl rfl
  | opens opening =>
    refine .inr (.inl ⟨?_, rfl⟩)
    by_contra hk
    obtain ⟨step, hstep⟩ := hkind hk
    cases hstep
  | turns opening =>
    cases frames with
    | nil => exact absurd rfl (hinside trivial)
    | cons frame frames => exact .inl rfl
  | closes step =>
    cases frames with
    | nil => exact absurd rfl (hinside trivial)
    | cons frame frames => exact .inr (.inr ⟨frame.line, rfl⟩)

end Assembly

section Blame

variable (builtins : Bool) (custom : List CustomTag)

inductive OpenTags : List Token → Assembly → List Token → Prop where
  | start : OpenTags [] .start []
  | stays {tags a ts t b} : OpenTags tags a ts → Assembly.step builtins custom a t = .ok b →
      b.frames.length = a.frames.length → OpenTags tags b (ts ++ [t])
  | opens {tags a ts t b} : OpenTags tags a ts → Assembly.step builtins custom a t = .ok b →
      b.frames.length = a.frames.length + 1 → OpenTags (t :: tags) b (ts ++ [t])
  | closes {tag tags a ts t b} : OpenTags (tag :: tags) a ts →
      Assembly.step builtins custom a t = .ok b → b.frames.length + 1 = a.frames.length →
      OpenTags tags b (ts ++ [t])

/-- The token that keeps tokens from making a block: the first that is refused, or the tag of the
innermost block that is open behind all of them. -/
def Blames (ts : List Token) (t : Token) : Prop :=
  (∃ before after a fault, ts = before ++ t :: after ∧
    before.foldlM (Assembly.step builtins custom) .start = .ok a ∧
    Assembly.step builtins custom a t = .error fault) ∨
  ∃ tags a, OpenTags builtins custom (t :: tags) a ts

end Blame

variable {builtins : Bool} {custom : List CustomTag} {a : Assembly} {ts tags : List Token}

open Assembly in
private theorem OpenTags.lines (h : OpenTags builtins custom tags a ts) :
    tags.map Token.line = a.lines ∧ ∀ t ∈ tags, t ∈ ts ∧ t.kind = .block := by
  induction h with
  | start => exact ⟨rfl, fun t ht => (List.not_mem_nil ht).elim⟩
  | @stays tags a ts t b _ hstep hlength ih =>
    refine ⟨?_, fun u hu => ⟨List.mem_append_left _ (ih.2 u hu).1, (ih.2 u hu).2⟩⟩
    have hsame : b.lines.length = a.lines.length := by simpa [Assembly.lines] using hlength
    rcases step_lines hstep with hb | ⟨-, hb⟩ | ⟨line, hb⟩
    · rw [ih.1, hb]
    · simp [hb] at hsame
    · simp [hb] at hsame
  | @opens tags a ts t b _ hstep hlength ih =>
    have hmore : b.lines.length = a.lines.length + 1 := by simpa [Assembly.lines] using hlength
    rcases step_lines hstep with hb | ⟨hk, hb⟩ | ⟨line, hb⟩
    · simp [hb] at hmore
    · refine ⟨by rw [List.map_cons, ih.1, hb], fun u hu => ?_⟩
      rcases List.mem_cons.mp hu with rfl | hu
      · exact ⟨List.mem_append_right _ List.mem_cons_self, hk⟩
      · exact ⟨List.mem_append_left _ (ih.2 u hu).1, (ih.2 u hu).2⟩
    · rw [hb, List.length_cons] at hmore
      omega
  | @closes tag tags a ts t b _ hstep hlength ih =>
    have hless : b.lines.length + 1 = a.lines.length := by simpa [Assembly.lines] using hlength
    refine ⟨?_, fun u hu => ?_⟩
    · rcases step_lines hstep with hb | ⟨-, hb⟩ | ⟨line, hb⟩
      · simp [hb] at hless
      · rw [hb, List.length_cons] at hless
        omega
      · have hlines := ih.1.trans hb
        rw [List.map_cons] at hlines
        exact (List.cons.inj hlines).2
    · obtain ⟨hmem, hk⟩ := ih.2 u (List.mem_cons_of_mem _ hu)
      exact ⟨List.mem_append_left _ hmem, hk⟩

namespace Assembly

private theorem exists_openTags (h : ts.foldlM (step builtins custom) start = .ok a) :
    ∃ tags, OpenTags builtins custom tags a ts := by
  induction ts using List.reverseRecOn generalizing a with
  | nil =>
    cases h
    exact ⟨[], .start⟩
  | append_singleton ts t ih =>
    rw [List.foldlM_append] at h
    obtain ⟨before, hrun, hlast⟩ := bind_eq_ok.mp h
    rw [List.foldlM_cons] at hlast
    obtain ⟨b, hstep, he⟩ := bind_eq_ok.mp hlast
    cases he
    obtain ⟨tags, htags⟩ := ih hrun
    have hlength : ∀ c : Assembly, c.frames.length = c.lines.length :=
      fun c => (List.length_map _).symm
    rcases step_lines hstep with hb | ⟨-, hb⟩ | ⟨line, hb⟩
    · exact ⟨tags, .stays htags hstep (by rw [hlength, hlength, hb])⟩
    · exact ⟨t :: tags, .opens htags hstep (by rw [hlength, hlength, hb, List.length_cons])⟩
    · cases tags with
      | nil =>
        have hnone := htags.lines.1
        rw [hb] at hnone
        cases hnone
      | cons tag tags =>
        exact ⟨tags, .closes htags hstep (by rw [hlength, hlength, hb, List.length_cons])⟩

/-- A fault of assembling tokens is on the line of the tag to blame. -/
theorem ofTokens_blames {fault : Fault} (h : ofTokens builtins custom ts = .error fault) :
    ∃ t ∈ ts, Blames builtins custom ts t ∧ t.kind ≠ .text ∧ fault.2 = t.line := by
  rcases bind_eq_error.mp h with hrun | ⟨a, hrun, hfinish⟩
  · obtain ⟨before, t, after, a, rfl, hbefore, hstep⟩ := foldlM_eq_error.mp hrun
    obtain ⟨hline, hk⟩ := step_line hstep
    exact ⟨t, List.mem_append_right _ List.mem_cons_self,
      .inl ⟨before, after, a, fault, rfl, hbefore, hstep⟩, hk, hline⟩
  · obtain ⟨tags, htags⟩ := exists_openTags hrun
    obtain ⟨hlines, hmem⟩ := htags.lines
    obtain ⟨frames, current⟩ := a
    cases frames with
    | nil => cases hfinish
    | cons frame frames =>
      cases hfinish
      cases tags with
      | nil => cases hlines
      | cons t tags =>
        obtain ⟨hin, hk⟩ := hmem t List.mem_cons_self
        exact ⟨t, hin, .inr ⟨tags, _, htags⟩, by simp [hk], ((List.cons.inj hlines).1).symm⟩

end Assembly

end Stencil
