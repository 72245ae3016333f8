import Stencil.Text.Blank

/-!
# Words

The words of a text have no blanks in them, are all of the text but its blanks, and are read again
from a text in which blanks stand between them.
-/

namespace Stencil.Text

def IsWord (cs : List Char) : Prop :=
  cs ≠ [] ∧ ∀ c ∈ cs, isBlank c = false

private theorem wordsFrom_blank {c : Char} (hc : isBlank c = true) (word cs rest : List Char) :
    wordsFrom word (cs ++ c :: rest) = wordsFrom word cs ++ words rest := by
  fun_induction wordsFrom word cs with
  | case1 word hempty =>
    rw [List.nil_append, wordsFrom, if_pos hc, if_pos hempty, List.nil_append, words]
  | case2 word hne =>
    rw [List.nil_append, wordsFrom, if_pos hc, if_neg hne, List.singleton_append, words]
  | case3 word d cs hd hempty ih => rw [List.cons_append, wordsFrom, if_pos hd, if_pos hempty, ih]
  | case4 word d cs hd hne ih =>
    rw [List.cons_append, wordsFrom, if_pos hd, if_neg hne, ih, List.cons_append]
  | case5 word d cs hd ih => rw [List.cons_append, wordsFrom, if_neg hd, ih]

private theorem words_blank {c : Char} (hc : isBlank c = true) (cs rest : List Char) :
    words (cs ++ c :: rest) = words cs ++ words rest :=
  wordsFrom_blank hc [] cs rest

private theorem wordsFrom_run {run : List Char} (h : ∀ c ∈ run, isBlank c = false)
    (word rest : List Char) :
    wordsFrom word (run ++ rest) = wordsFrom (run.reverse ++ word) rest := by
  induction run generalizing word with
  | nil => rfl
  | cons c cs ih =>
    obtain ⟨hc, hcs⟩ := List.forall_mem_cons.mp h
    rw [List.cons_append, wordsFrom, hc, if_neg Bool.false_ne_true, ih hcs, List.reverse_cons,
      List.append_assoc, List.singleton_append]

private theorem words_word {word : List Char} (h : IsWord word) : words word = [word] := by
  have hread := wordsFrom_run h.2 [] []
  rw [List.append_nil, List.append_nil] at hread
  rw [words, hread, wordsFrom, if_neg (by simpa using h.1), List.reverse_reverse]

theorem words_intercalate {parts : List (List Char)} (h : ∀ part ∈ parts, IsWord part) {c : Char}
    (hc : isBlank c = true) : words ([c].intercalate parts) = parts := by
  induction parts with
  | nil => rfl
  | cons part rest ih =>
    obtain ⟨hpart, hrest⟩ := List.forall_mem_cons.mp h
    cases rest with
    | nil => rw [List.intercalate_singleton, words_word hpart]
    | cons next rest =>
      rw [List.intercalate_cons_cons, List.append_assoc, List.singleton_append, words_blank hc,
        words_word hpart, ih hrest, List.singleton_append]

private theorem isWord_reverse {word : List Char} (h : ∀ c ∈ word, isBlank c = false)
    (hne : word ≠ []) :
    IsWord word.reverse :=
  ⟨mt List.reverse_eq_nil_iff.mp hne, fun c hc => h c (List.mem_reverse.mp hc)⟩

private theorem wordsFrom_words {word cs part : List Char} (h : ∀ c ∈ word, isBlank c = false)
    (hpart : part ∈ wordsFrom word cs) : IsWord part := by
  fun_induction wordsFrom word cs with
  | case1 => cases hpart
  | case2 word hne =>
    rw [List.mem_singleton.mp hpart]
    exact isWord_reverse h (by simpa using hne)
  | case3 word c cs hc hempty ih => exact ih (fun _ hm => absurd hm List.not_mem_nil) hpart
  | case4 word c cs hc hne ih =>
    rcases List.mem_cons.mp hpart with rfl | hrest
    · exact isWord_reverse h (by simpa using hne)
    · exact ih (fun _ hm => absurd hm List.not_mem_nil) hrest
  | case5 word c cs hc ih =>
    exact ih (List.forall_mem_cons.mpr ⟨by simpa using hc, h⟩) hpart

theorem isWord_of_mem_words {cs part : List Char} (h : part ∈ words cs) : IsWord part :=
  wordsFrom_words (fun _ hm => absurd hm List.not_mem_nil) h

private theorem flatten_wordsFrom (word cs : List Char) :
    (wordsFrom word cs).flatten = word.reverse ++ cs.filter fun c => !isBlank c := by
  fun_induction wordsFrom word cs with
  | case1 word hempty => simpa using List.isEmpty_iff.mp hempty
  | case2 word hne => simp
  | case3 word c cs hc hempty ih => simp [hc, ih, List.isEmpty_iff.mp hempty]
  | case4 word c cs hc hne ih => simp [hc, ih]
  | case5 word c cs hc ih => simp [hc, ih]

theorem flatten_words (cs : List Char) :
    (words cs).flatten = cs.filter fun c => !isBlank c :=
  flatten_wordsFrom [] cs

end Stencil.Text
