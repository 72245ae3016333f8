import Mathlib.Data.List.Induction
import Stencil.Text.Lines

/-!
# Where lines are

The lines of a text by what stands before and behind them. A line feed ends a line together with one
carriage return before it; what follows the last line feed is a line if there is any of it.
-/

namespace Stencil.Text

/-- What a line ends with, and what may follow. -/
inductive LineEnd : List Char → List Char → List Char → Prop where
  | feed {line after} : line.getLast? ≠ some '\r' → LineEnd line ['\n'] after
  | returned {line after} : LineEnd line ['\r', '\n'] after
  | last {line} : line ≠ [] → LineEnd line [] []

/-- A text begins with a line that has an end. -/
structure Leads (line ending after : List Char) : Prop where
  whole : '\n' ∉ line
  ends : LineEnd line ending after

/-- Text that a line may follow. -/
def Fresh (cs : List Char) : Prop :=
  cs = [] ∨ ∃ front, cs = front ++ ['\n']

variable {cs line ending after : List Char} {c : Char}

private theorem lines_cons {l : List Char} {ls : List (List Char)} (hc : c ≠ '\n')
    (hr : c = '\r' → cs.head? ≠ some '\n') (h : lines cs = l :: ls) :
    lines (c :: cs) = (c :: l) :: ls := by
  rw [lines, h]
  · rintro rest rfl rfl
    exact hr rfl rfl
  · exact hc

private theorem lines_single (hc : c ≠ '\n') : lines [c] = [[c]] := by
  rw [lines, lines]
  · simp
  · exact hc

namespace Leads

private theorem tail (h : Leads (c :: line) ending after) (hne : line ++ ending ≠ []) :
    Leads line ending after := by
  obtain ⟨hw, he⟩ := h
  refine ⟨fun hm => hw (List.mem_cons_of_mem _ hm), ?_⟩
  cases he with
  | feed hlast =>
    apply LineEnd.feed
    cases line with
    | nil => simp
    | cons d line => rwa [List.getLast?_cons_cons] at hlast
  | returned => exact .returned
  | last => exact .last (by simpa using hne)

private theorem cons (h : Leads line ending after) (hc : c ≠ '\n')
    (hr : c = '\r' → (line ++ (ending ++ after)).head? ≠ some '\n') :
    Leads (c :: line) ending after := by
  obtain ⟨hw, he⟩ := h
  refine ⟨fun hm => (List.mem_cons.mp hm).elim (fun h => hc h.symm) hw, ?_⟩
  cases he with
  | feed hlast =>
    apply LineEnd.feed
    cases line with
    | nil =>
      intro hlast
      exact hr (by simpa using hlast) rfl
    | cons d line => rwa [List.getLast?_cons_cons]
  | returned => exact .returned
  | last => exact .last (List.cons_ne_nil _ _)

private theorem lines_eq (h : Leads line ending after) :
    lines (line ++ (ending ++ after)) = line :: lines after := by
  induction line with
  | nil =>
    cases h.ends with
    | feed => rw [List.nil_append, List.singleton_append, lines]
    | returned => rfl
    | last hne => exact absurd rfl hne
  | cons c line ih =>
    have hc : c ≠ '\n' := fun hc => h.whole (hc ▸ List.mem_cons_self)
    by_cases hne : line ++ ending = []
    · obtain ⟨rfl, rfl⟩ := List.append_eq_nil_iff.mp hne
      cases h.ends
      exact lines_single hc
    · refine lines_cons hc ?_ (ih (h.tail hne))
      rintro rfl hhead
      cases line with
      | nil =>
        cases h.ends with
        | feed hlast => exact hlast rfl
        | returned => simp at hhead
        | last => exact hne rfl
      | cons d line =>
        have hd : d = '\n' := by simpa using hhead
        exact h.whole (hd ▸ List.mem_cons_of_mem _ List.mem_cons_self)

end Leads

private theorem exists_line (h : cs ≠ []) :
    ∃ line ending after, cs = line ++ (ending ++ after) ∧ Leads line ending after := by
  induction cs with
  | nil => exact absurd rfl h
  | cons c cs ih =>
    by_cases hc : c = '\n'
    · subst hc
      exact ⟨[], ['\n'], cs, rfl, List.not_mem_nil, .feed (by simp)⟩
    · cases cs with
      | nil => exact ⟨[c], [], [], rfl, by simpa using Ne.symm hc, .last (List.cons_ne_nil _ _)⟩
      | cons d cs =>
        by_cases hr : c = '\r' ∧ d = '\n'
        · obtain ⟨rfl, rfl⟩ := hr
          exact ⟨[], ['\r', '\n'], cs, rfl, List.not_mem_nil, .returned⟩
        · obtain ⟨line, ending, after, hcut, hleads⟩ := ih (List.cons_ne_nil _ _)
          refine ⟨c :: line, ending, after, congrArg _ hcut, hleads.cons hc ?_⟩
          rintro rfl hhead
          rw [← hcut] at hhead
          exact hr ⟨rfl, by simpa using hhead⟩

private theorem line_induction {P : List Char → Prop} (nil : P [])
    (line : ∀ line ending after, Leads line ending after → P after →
      P (line ++ (ending ++ after))) (cs : List Char) : P cs := by
  induction hn : cs.length using Nat.strongRecOn generalizing cs with
  | ind n ih =>
    by_cases hne : cs = []
    · rw [hne]
      exact nil
    · obtain ⟨front, ending, after, rfl, hleads⟩ := exists_line hne
      refine line front ending after hleads (ih after.length ?_ after rfl)
      have hpos : 0 < front.length + ending.length := by
        cases hleads.ends with
        | feed => simp
        | returned => simp
        | last hne => simpa [List.length_pos_iff] using hne
      rw [← hn, List.length_append, List.length_append]
      omega

private theorem Leads.newlines_eq (h : Leads line ending after) :
    newlines (line ++ (ending ++ after)) = newlines ending + newlines after := by
  have hline : newlines line = 0 := List.count_eq_zero.mpr h.whole
  have hsum : newlines (line ++ (ending ++ after)) =
      newlines line + (newlines ending + newlines after) := by
    simp only [newlines, List.count_append]
  omega

structure Closes (line ending : List Char) : Prop where
  feed : ∃ close, ending = close ++ ['\n']
  once : newlines ending = 1
  leads : ∀ after, Leads line ending after

private theorem Leads.closes (h : Leads line ending after) :
    Closes line ending ∨ (ending = [] ∧ after = []) := by
  cases h.ends with
  | feed hr => exact .inl ⟨⟨[], rfl⟩, rfl, fun _ => ⟨h.whole, .feed hr⟩⟩
  | returned => exact .inl ⟨⟨['\r'], rfl⟩, rfl, fun _ => ⟨h.whole, .returned⟩⟩
  | last => exact .inr ⟨rfl, rfl⟩

private theorem Fresh.behind (hf : Fresh (line ++ (ending ++ after)))
    (h : Leads line ending after) :
    Fresh after ∧ Closes line ending := by
  rcases h.closes with hcloses | ⟨rfl, rfl⟩
  · refine ⟨?_, hcloses⟩
    rcases List.eq_nil_or_concat after with rfl | ⟨front, c, rfl⟩
    · exact .inl rfl
    · rcases hf with hf | ⟨whole, hf⟩
      · simp at hf
      · have hends := congrArg List.getLast? hf
        have hc : c = '\n' := by simpa [← List.append_assoc] using hends
        exact .inr ⟨front, by rw [hc, List.concat_eq_append]⟩
  · rw [List.append_nil, List.append_nil] at hf
    rcases hf with rfl | ⟨front, rfl⟩
    · cases h.ends with
      | last hne => exact absurd rfl hne
    · exact absurd (List.mem_append_right front List.mem_cons_self) h.whole

/-- Fresh text adds its lines, one for every line feed, in front of those that follow. -/
private theorem lines_append {before : List Char} (hf : Fresh before) (cs : List Char) :
    lines (before ++ cs) = lines before ++ lines cs ∧
      (lines before).length = newlines before := by
  induction before using line_induction with
  | nil => exact ⟨rfl, rfl⟩
  | line line ending after hleads ih =>
    obtain ⟨hfresh, hcloses⟩ := Fresh.behind hf hleads
    obtain ⟨happend, hlength⟩ := ih hfresh
    rw [List.append_assoc, List.append_assoc, (hcloses.leads _).lines_eq, hleads.lines_eq, happend]
    exact ⟨rfl, by rw [List.length_cons, hlength, hleads.newlines_eq, hcloses.once, Nat.add_comm]⟩

structure LineOf (cs before line : List Char) : Prop where
  fresh : Fresh before
  found : ∃ ending after, cs = before ++ (line ++ (ending ++ after)) ∧ Leads line ending after

/-- The lines of a text are numbered by the line feeds before them. -/
theorem getElem?_lines {number : Nat} :
    (lines cs)[number]? = some line ↔
      ∃ before, LineOf cs before line ∧ newlines before = number := by
  constructor
  · intro h
    induction cs using line_induction generalizing number with
    | nil => simp [lines] at h
    | line front ending after hleads ih =>
      rw [hleads.lines_eq] at h
      cases number with
      | zero =>
        obtain rfl : front = line := by simpa using h
        exact ⟨[], ⟨.inl rfl, ending, after, rfl, hleads⟩, rfl⟩
      | succ number =>
        obtain ⟨before, ⟨hfresh, ending', after', rfl, hline⟩, rfl⟩ := ih (by simpa using h)
        rcases hleads.closes with hcloses | ⟨rfl, hnil⟩
        · have hcount := (hcloses.leads before).newlines_eq
          rw [hcloses.once, Nat.add_comm] at hcount
          refine ⟨front ++ (ending ++ before), ⟨?_, ending', after', by simp, hline⟩, hcount⟩
          obtain ⟨close, rfl⟩ := hcloses.feed
          rcases hfresh with rfl | ⟨front', rfl⟩
          · exact .inr ⟨front ++ close, by simp⟩
          · exact .inr ⟨front ++ (close ++ '\n' :: front'), by simp⟩
        · rw [hnil] at h
          simp [lines] at h
  · rintro ⟨before, ⟨hfresh, ending, after, rfl, hleads⟩, rfl⟩
    obtain ⟨happend, hlength⟩ := lines_append hfresh (line ++ (ending ++ after))
    rw [happend, ← hlength, hleads.lines_eq]
    simp

private theorem exists_fresh (cs : List Char) :
    ∃ before margin, cs = before ++ margin ∧ Fresh before ∧ '\n' ∉ margin := by
  induction cs using List.reverseRecOn with
  | nil => exact ⟨[], [], rfl, .inl rfl, List.not_mem_nil⟩
  | append_singleton cs c ih =>
    by_cases hc : c = '\n'
    · exact ⟨cs ++ [c], [], (List.append_nil _).symm, .inr ⟨cs, by rw [hc]⟩, List.not_mem_nil⟩
    · obtain ⟨before, margin, rfl, hfresh, hmargin⟩ := ih
      refine ⟨before, margin ++ [c], List.append_assoc _ _ _, hfresh, ?_⟩
      simpa [hmargin] using Ne.symm hc

private theorem newlines_margin {before margin : List Char} (h : '\n' ∉ margin) :
    newlines before = newlines (before ++ margin) := by
  have hzero : newlines margin = 0 := List.count_eq_zero.mpr h
  simp only [newlines, List.count_append] at hzero ⊢
  omega

theorem exists_lineOf_behind (front : List Char) {rest : List Char} (hne : rest ≠ []) :
    ∃ before text, LineOf (front ++ rest) before text ∧ newlines before = newlines front := by
  obtain ⟨before, margin, rfl, hfresh, hmargin⟩ := exists_fresh front
  obtain ⟨text, ending, after, hcut, hleads⟩ :=
    exists_line (List.append_ne_nil_of_right_ne_nil margin hne)
  exact ⟨before, text, ⟨hfresh, ending, after, by rw [List.append_assoc, hcut], hleads⟩,
    newlines_margin hmargin⟩

theorem exists_lineOf (front back : List Char) {word : List Char} (hne : word ≠ [])
    (hw : '\n' ∉ word) (hr : word.getLast? ≠ some '\r') :
    ∃ before margin more, front = before ++ margin ∧ newlines before = newlines front ∧
      LineOf (front ++ (word ++ back)) before (margin ++ (word ++ more)) := by
  obtain ⟨before, margin, rfl, hfresh, hmargin⟩ := exists_fresh front
  have hcount : newlines before = newlines (before ++ margin) := newlines_margin hmargin
  by_cases hback : back = []
  · subst hback
    refine ⟨before, margin, [], rfl, hcount, hfresh, [], [], by simp, ?_, .last (by simp [hne])⟩
    simp [hmargin, hw]
  · obtain ⟨more, ending, after, rfl, hleads⟩ := exists_line hback
    refine ⟨before, margin, more, rfl, hcount, hfresh, ending, after, by simp, ?_, ?_⟩
    · simp [hmargin, hw, hleads.whole]
    · cases hleads.ends with
      | feed hlast =>
        apply LineEnd.feed
        obtain ⟨c, hc⟩ := Option.ne_none_iff_exists'.mp (mt List.getLast?_eq_none_iff.mp hne)
        rw [List.getLast?_append, List.getLast?_append, hc]
        cases hmore : more.getLast? with
        | none => simpa [hc] using hr
        | some d => simpa [hmore] using hlast
      | returned => exact .returned
      | last => exact .last (by simp [hne])

end Stencil.Text
