import Stencil.Proofs.Number.Exact
import Stencil.Proofs.Text.Occurrence
import Stencil.Proofs.Text.Words
import Stencil.Value.Method

/-!
# Splitting and joining

Splitting a text at a separator, joining the parts, counting the separator and replacing it tell of
the same occurrences, and the words of a text are split off again from where blanks join them.
-/

namespace Stencil.Value

section Methods

private theorem ofChars_toList (s : String) : ofChars s.toList = text s := by
  rw [ofChars, String.ofList_toList]

private theorem map_ofChars (parts : List (List Char)) :
    parts.map ofChars = (parts.map String.ofList).map text := by
  rw [List.map_map]
  rfl

private theorem mapM_expectText (name : String) (parts : List String) :
    (parts.map text).mapM (expectText name) = .ok parts := by
  induction parts with
  | nil => rfl
  | cons part rest ih =>
    rw [List.map_cons, List.mapM_cons, ih]
    rfl

private theorem method_join (separator : String) (parts : List String) :
    (text separator).method "join" [list (parts.map text)] =
      .ok (ofChars (separator.toList.intercalate (parts.map String.toList))) := by
  have hcall : (text separator).method "join" [list (parts.map text)] =
      (parts.map text).mapM (expectText "join") >>= fun parts =>
        .ok (joinTexts separator.toList parts) := rfl
  rw [hcall, mapM_expectText]
  rfl

private theorem method_split {separator : String} (h : separator ≠ "") (s : String) :
    (text s).method "split" [text separator] =
      .ok (list ((Text.split separator.toList s.toList).map ofChars)) := by
  have hcall : (text s).method "split" [text separator] =
      if separator.isEmpty then .error (.value "empty separator")
      else .ok (list ((Text.split separator.toList s.toList).map ofChars)) := rfl
  rw [hcall, if_neg (mt String.isEmpty_iff.mp h)]

private theorem method_words (s : String) :
    (text s).method "split" [] = .ok (list ((Text.words s.toList).map ofChars)) := rfl

theorem method_count (s part : String) :
    (text s).method "count" [text part] = .ok (ofNat (Text.countOf part.toList s.toList)) := rfl

private theorem method_replace (s old new : String) :
    (text s).method "replace" [text old, text new] =
      .ok (ofChars (Text.replace old.toList new.toList s.toList)) := rfl

private theorem len_list (items : List Value) :
    Builtin.len.call [list items] = .ok (ofNat items.length) := rfl

end Methods

private theorem toList_ofList_map (parts : List (List Char)) :
    (parts.map String.ofList).map String.toList = parts := by
  simp

theorem contains_text (whole part : String) :
    contains (text whole) (text part) = .ok (Text.occurs part.toList whole.toList) := rfl

theorem ofNat_min (n : Nat) :
    ∃ i : Int64, ofNat n = int i ∧ i.toInt = min (n : Int) addressable := by
  refine ⟨_, rfl, ?_⟩
  rw [addressable, Int64.toInt_maxValue, Int64.toInt_ofNat_of_lt (by omega)]
  omega

theorem ofNat_exact {n : Nat} (h : n ≤ addressable) :
    ∃ i : Int64, ofNat n = int i ∧ i.toInt = n := by
  obtain ⟨i, hi, hleast⟩ := ofNat_min n
  exact ⟨i, hi, by omega⟩

private theorem ofNat_succ_sub {n : Nat} (h : n < addressable) :
    binary .sub (ofNat (n + 1)) (int 1) = .ok (ofNat n) := by
  obtain ⟨i, hi, hsucc⟩ := ofNat_exact h
  obtain ⟨j, hj, hn⟩ := ofNat_exact (Nat.le_of_lt h)
  have hless : i.toInt - (1 : Int64).toInt = j.toInt := by
    rw [hsucc, hn, show (1 : Int64).toInt = 1 from rfl]
    omega
  have hsub : binary .sub (int i) (int 1) =
      fitted (Number.fit? (i.toInt - (1 : Int64).toInt)) := rfl
  rw [hi, hj, hsub, hless, Number.fit?_toInt]
  rfl

/-- What a text is split into at a separator joins to the text again, has no separator in any part,
has one part more than there are separators, and joins with another text to the text in which that
is written for the separator. The words of a text have no blanks in them, are all of the text but
its blanks, and are the words of what they join to. -/
theorem splitting_agrees {separator : String} (h : separator ≠ "") (s new : String) :
    (∃ parts : List String,
      (text s).method "split" [text separator] = .ok (list (parts.map text)) ∧
      (text separator).method "join" [list (parts.map text)] = .ok (text s) ∧
      (∀ part ∈ parts, contains (text part) (text separator) = .ok false) ∧
      (∃ n, (text s).method "count" [text separator] = .ok (ofNat n) ∧ parts.length = n + 1 ∧
        Builtin.len.call [list (parts.map text)] = .ok (ofNat (n + 1)) ∧
        (n < addressable → binary .sub (ofNat (n + 1)) (int 1) = .ok (ofNat n))) ∧
      ∃ out, (text s).method "replace" [text separator, text new] = .ok (text out) ∧
        (text new).method "join" [list (parts.map text)] = .ok (text out)) ∧
    ∃ words : List String,
      (text s).method "split" [] = .ok (list (words.map text)) ∧
      (∀ word ∈ words, Text.IsWord word.toList) ∧
      (words.map String.toList).flatten = s.toList.filter (fun c => !Text.isBlank c) ∧
      ∃ joined, (text " ").method "join" [list (words.map text)] = .ok (text joined) ∧
        (text joined).method "split" [] = .ok (list (words.map text)) := by
  have hne : separator.toList ≠ [] := mt String.toList_eq_nil_iff.mp h
  refine ⟨⟨(Text.split separator.toList s.toList).map String.ofList, ?_, ?_, ?_, ?_, ?_⟩,
    (Text.words s.toList).map String.ofList, ?_, ?_, ?_, ?_⟩
  · rw [method_split h, map_ofChars]
  · rw [method_join, toList_ofList_map, Text.intercalate_split hne, Text.replace_self hne,
      ofChars_toList]
  · intro part hpart
    obtain ⟨cs, hcs, rfl⟩ := List.mem_map.mp hpart
    have hfree : Text.occurs separator.toList cs = false :=
      Bool.eq_false_iff.mpr (mt Text.occurs_iff.mp (Text.not_infix_of_mem_split hne hcs))
    rw [contains_text, String.toList_ofList, hfree]
  · have hlength : ((Text.split separator.toList s.toList).map String.ofList).length =
        Text.countOf separator.toList s.toList + 1 := by
      rw [List.length_map, Text.length_split hne]
    refine ⟨_, method_count s separator, hlength, ?_, ofNat_succ_sub⟩
    rw [len_list, List.length_map, hlength]
  · refine ⟨_, method_replace s separator new, ?_⟩
    rw [method_join, toList_ofList_map, Text.intercalate_split hne]
    rfl
  · rw [method_words, map_ofChars]
  · intro word hword
    obtain ⟨cs, hcs, rfl⟩ := List.mem_map.mp hword
    rw [String.toList_ofList]
    exact Text.isWord_of_mem_words hcs
  · rw [toList_ofList_map, Text.flatten_words]
  · refine ⟨_, method_join " " _, ?_⟩
    have hread : Text.words (" ".toList.intercalate (Text.words s.toList)) = Text.words s.toList :=
      Text.words_intercalate (fun _ hm => Text.isWord_of_mem_words hm) (by decide)
    rw [toList_ofList_map, method_words, String.toList_ofList, hread, map_ofChars]

/-- Of two occurrences that overlap the first one counts. -/
theorem splitting_agrees_overlap :
    let s : Value := .text "aaañ"
    let parts : List Value := [.text "", .text "añ"]
    "aa" ≠ "" ∧ s.method "split" [.text "aa"] = .ok (.list parts) ∧
      (text "aa").method "join" [.list parts] = .ok s ∧
      s.method "count" [.text "aa"] = .ok (.int 1) ∧
      s.method "replace" [.text "aa", .text "-"] = .ok (.text "-añ") := by
  intro s parts
  have hne : "aa" ≠ "" := by decide
  have hsplit : s.method "split" [.text "aa"] = .ok (.list parts) := by rfl
  obtain ⟨⟨found, hfound, hjoin, -, ⟨n, hcount, hlength, -⟩, out, hreplace, hout⟩, -⟩ :=
    splitting_agrees hne "aaañ" "-"
  have hparts : found.map text = parts := by simpa using hfound.symm.trans hsplit
  have hone : n = 1 := by simpa [hlength, parts] using congrArg List.length hparts
  have hwritten : text out = .text "-añ" := by
    rw [hparts] at hout
    exact Except.ok.inj (hout.symm.trans (by rfl))
  rw [hparts] at hjoin
  rw [hone] at hcount
  rw [hwritten] at hreplace
  exact ⟨hne, hsplit, hjoin, hcount, hreplace⟩

end Stencil.Value
