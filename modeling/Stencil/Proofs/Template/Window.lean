import Mathlib.Data.List.Nodup
import Stencil.Proofs.Markup.Partition
import Stencil.Proofs.Text.Lines
import Stencil.Snippet

/-!
# Windows of a source

The lines around a number that there are, each with its own number. A token is in a line of its
source, which a snippet about it shows.
-/

namespace Stencil

open Text (LineOf newlines)

namespace Snippet

variable {source : String} {line : Nat}

private theorem length_shown (source : String) (line : Nat) :
    let s := around source line
    ((s.lines.drop (s.first - 1)).take (s.last + 1 - s.first)).length = s.last + 1 - s.first := by
  simp only [around, List.length_take, List.length_drop, List.length_map]
  omega

theorem window_numbers (source : String) (line : Nat) :
    let first := max (line - 2) 1
    (around source line).window.map Prod.fst =
      List.range' first (min (line + 2) (Text.lines source.toList).length + 1 - first) := by
  intro first
  rw [window, List.map_fst_zip (by simp), length_shown]
  simp [around, first]

private theorem getElem?_around {i : Nat} {text : String} :
    (around source line).lines[i]? = some text ↔
    (Text.lines source.toList)[i]? = some text.toList := by
  rw [around, List.getElem?_map, Option.map_eq_some_iff]
  constructor
  · rintro ⟨cs, hcs, rfl⟩
    rw [hcs, String.toList_ofList]
  · exact fun h => ⟨text.toList, h, String.ofList_toList⟩

private theorem mem_window {number : Nat} {text : String} :
    (number, text) ∈ (around source line).window ↔ max (line - 2) 1 ≤ number ∧
      number ≤ line + 2 ∧ (Text.lines source.toList)[number - 1]? = some text.toList := by
  have hfirst : (around source line).first = max (line - 2) 1 := rfl
  have hwidth : (around source line).last + 1 - (around source line).first =
      min (line + 2) (Text.lines source.toList).length + 1 - max (line - 2) 1 := by
    simp [around]
  rw [window, List.mem_iff_getElem?, length_shown, hwidth, hfirst]
  simp only [List.getElem?_zip_eq_some]
  constructor
  · rintro ⟨i, hnumber, htext⟩
    obtain ⟨hi, hvalue⟩ := List.getElem?_eq_some_iff.mp hnumber
    rw [List.length_range'] at hi
    rw [List.getElem_range', Nat.one_mul] at hvalue
    rw [List.getElem?_take_of_lt hi, List.getElem?_drop, getElem?_around] at htext
    have hplace : number - 1 = max (line - 2) 1 - 1 + i := by omega
    exact ⟨by omega, by omega, by rw [hplace, htext]⟩
  · rintro ⟨hlow, hhigh, htext⟩
    have hbound := (List.getElem?_eq_some_iff.mp htext).1
    have hplace : max (line - 2) 1 - 1 + (number - max (line - 2) 1) = number - 1 := by omega
    refine ⟨number - max (line - 2) 1, ?_, ?_⟩
    · rw [List.getElem?_range' (by omega)]
      congr 1
      omega
    · rw [List.getElem?_take_of_lt (by omega), List.getElem?_drop, getElem?_around, hplace, htext]

theorem mem_window_iff {number : Nat} {text : String} :
    (number, text) ∈ (around source line).window ↔ line ≤ number + 2 ∧ number ≤ line + 2 ∧
      ∃ before, LineOf source.toList before text.toList ∧ number = newlines before + 1 := by
  rw [mem_window, Text.getElem?_lines]
  constructor
  · rintro ⟨hlow, hhigh, before, hline, hcount⟩
    exact ⟨by omega, hhigh, before, hline, by omega⟩
  · rintro ⟨hlow, hhigh, before, hline, rfl⟩
    exact ⟨by omega, hhigh, before, hline, rfl⟩

theorem window_splits {number : Nat} {text : String}
    (h : (number, text) ∈ (around source line).window) :
    ∃ above below, (around source line).window = above ++ (number, text) :: below ∧
      ∀ row ∈ above ++ below, row.1 ≠ number := by
  obtain ⟨above, below, hwindow⟩ := List.append_of_mem h
  refine ⟨above, below, hwindow, ?_⟩
  -- The rows are numbered consecutively, so no number is there twice.
  have hnodup : ((around source line).window.map Prod.fst).Nodup := by
    rw [window_numbers]
    exact List.nodup_range'
  rw [hwindow, List.map_append, List.map_cons, List.nodup_middle, List.nodup_cons] at hnodup
  intro row hrow hsame
  apply hnodup.1
  rw [← List.map_append, ← hsame]
  exact List.mem_map.mpr ⟨row, hrow, rfl⟩

/-- A snippet of a source around a line: in order and each with its number, the lines from two
before it to two behind it that there are, the line itself among them once and marked. -/
structure Shows (s : Snippet) (source : String) (line : Nat) : Prop where
  consecutive : ∃ first count, s.window.map Prod.fst = List.range' first count
  rows : ∀ number text, (number, text) ∈ s.window ↔ line ≤ number + 2 ∧ number ≤ line + 2 ∧
    ∃ before, LineOf source.toList before text.toList ∧ number = newlines before + 1
  own : ∃ above text below, s.window = above ++ (line, text) :: below ∧
    ∀ row ∈ above ++ below, row.1 ≠ line
  marked : s.text = String.join (s.window.map fun row =>
    " " ++ (if row.1 = line then ">" else " ") ++ " " ++ padLeft 3 row.1 ++ " | " ++ row.2 ++ "\n")

/-- A snippet shows the line it is about if there is such a line. -/
theorem around_shows {before text : List Char} (h : LineOf source.toList before text)
    (hline : line = newlines before + 1) : (around source line).Shows source line := by
  have hrow : (line, String.ofList text) ∈ (around source line).window := by
    rw [mem_window_iff, String.toList_ofList]
    exact ⟨by omega, by omega, before, h, hline⟩
  obtain ⟨above, below, hwindow, hothers⟩ := window_splits hrow
  exact ⟨⟨_, _, window_numbers source line⟩, fun _ _ => mem_window_iff,
    ⟨above, _, below, hwindow, hothers⟩, rfl⟩

end Snippet

/-- A token begins in a line of its source, whatever the delimiters are. -/
theorem Token.scan_lineOf {d : Delimiters} {source : String} {t : Token} (ht : t ∈ scan d source) :
    ∃ before text, LineOf source.toList before text ∧ t.line = newlines before + 1 := by
  obtain ⟨-, front, part, rest, hsource, hpart, -, -, hline, -⟩ := (scan_cuts d source).placed t ht
  have hne : part ++ rest ≠ [] := by simp [hpart]
  obtain ⟨before, text, hlineOf, hcount⟩ := Text.exists_lineOf_behind front hne
  exact ⟨before, text, hsource ▸ hlineOf, by omega⟩

end Stencil
