import Mathlib.Data.List.Basic
import Stencil.Escape

/-!
# Entities

Text escaped for a page marks up nothing, and reading its entities gives the text back.
-/

namespace Stencil.Escape

def entities : List (Char × List Char) :=
  [('&', "&amp;".toList), ('<', "&lt;".toList), ('>', "&gt;".toList), ('\x22', "&quot;".toList),
    ('\x27', "&#39;".toList)]

def entityAt? (cs : List Char) : Option (Char × List Char) :=
  entities.find? fun entity => entity.2.isPrefixOf cs

def readAfter : Nat → List Char → List Char
  | _, [] => []
  | skip + 1, _ :: cs => readAfter skip cs
  | 0, c :: cs =>
    match entityAt? (c :: cs) with
    | some entity => entity.1 :: readAfter (entity.2.length - 1) cs
    | none => c :: readAfter 0 cs

/-- Text with its entities, from left to right, replaced by their characters. -/
def unescape (s : String) : String :=
  String.ofList (readAfter 0 s.toList)

section Table

def IsPlain (c : Char) : Prop :=
  ∀ entity ∈ entities, c ≠ entity.1

instance (c : Char) : Decidable (IsPlain c) :=
  inferInstanceAs (Decidable (∀ entity ∈ entities, c ≠ entity.1))

private theorem IsPlain.ne_ampersand {c : Char} (h : IsPlain c) : c ≠ '&' :=
  h ('&', "&amp;".toList) (by decide)

private theorem IsPlain.unmarked {c : Char} (h : IsPlain c) : c ∉ ['<', '>', '\x22', '\x27'] := by
  have hmarks : ['<', '>', '\x22', '\x27'] = entities.tail.map Prod.fst := rfl
  rw [hmarks]
  intro hc
  obtain ⟨entity, hentity, rfl⟩ := List.mem_map.mp hc
  exact h entity (List.mem_of_mem_tail hentity) rfl

private theorem entities_form : ∀ entity ∈ entities,
    entity.2 = '&' :: entity.2.tail ∧ ∀ c ∈ entity.2.tail, IsPlain c := by
  have hall : entities.all (fun entity =>
      entity.2 == '&' :: entity.2.tail &&
        entity.2.tail.all fun c => decide (IsPlain c)) = true := by
    decide
  simpa only [List.all_eq_true, Bool.and_eq_true, beq_iff_eq, decide_eq_true_eq] using hall

private theorem entities_apart : ∀ entity ∈ entities, ∀ other ∈ entities,
    entity.2 <+: other.2 → entity = other := by
  decide

private theorem htmlChar_cases (c : Char) :
    (∃ name, htmlChar c = '&' :: name ∧ (c, '&' :: name) ∈ entities ∧ ∀ d ∈ name, IsPlain d) ∨
      htmlChar c = [c] ∧ IsPlain c := by
  have hwritten : (c, htmlChar c) ∈ entities ∨ htmlChar c = [c] ∧ IsPlain c := by
    unfold htmlChar IsPlain
    simp only [entities]
    split_ifs <;> simp_all
  rcases hwritten with hentity | hplain
  · obtain ⟨hform, hname⟩ := entities_form _ hentity
    obtain ⟨name, hc⟩ : ∃ name, htmlChar c = '&' :: name := ⟨_, hform⟩
    rw [hc] at hentity hname
    exact .inl ⟨name, hc, hentity, hname⟩
  · exact .inr hplain

end Table

private theorem mem_htmlChar {c d : Char} (h : d ∈ htmlChar c) : d = '&' ∨ IsPlain d := by
  rcases htmlChar_cases c with ⟨name, hc, -, hname⟩ | ⟨hc, hplain⟩
  · rw [hc] at h
    exact (List.mem_cons.mp h).imp_right (hname d)
  · rw [hc] at h
    rw [List.mem_singleton.mp h]
    exact .inr hplain

private theorem mem_html {s : String} {d : Char} (h : d ∈ (html s).toList) :
    d = '&' ∨ IsPlain d := by
  rw [html, String.toList_ofList] at h
  obtain ⟨c, -, hd⟩ := List.mem_flatMap.mp h
  exact mem_htmlChar hd

private theorem html_append (s t : String) : html (s ++ t) = html s ++ html t := by
  rw [html, String.toList_append, List.flatMap_append, String.ofList_append]
  rfl

private theorem ampersand_first {c : Char} {before after : List Char}
    (h : htmlChar c = before ++ '&' :: after) : (c, '&' :: after) ∈ entities := by
  rcases htmlChar_cases c with ⟨name, hc, hentity, hname⟩ | ⟨hc, hplain⟩
  · rw [hc] at h
    cases before with
    | nil => rwa [h] at hentity
    | cons d before =>
      obtain ⟨-, rfl⟩ := List.cons.inj h
      exact absurd rfl (hname '&' (by simp)).ne_ampersand
  · have hmem : '&' ∈ htmlChar c := by simp [h]
    rw [hc] at hmem
    exact absurd (List.mem_singleton.mp hmem).symm hplain.ne_ampersand

private theorem ampersand_begins {cs before after : List Char}
    (h : cs.flatMap htmlChar = before ++ '&' :: after) :
    ∃ entity ∈ entities, entity.2 <+: '&' :: after := by
  induction cs generalizing before with
  | nil => simp at h
  | cons c cs ih =>
    -- The ampersand is behind what is written for the first character, or in it.
    rw [List.flatMap_cons, List.append_eq_append_iff] at h
    rcases h with ⟨rest, -, hrest⟩ | ⟨rest, hchar, hrest⟩
    · exact ih hrest
    · cases rest with
      | nil =>
        have hfront : cs.flatMap htmlChar = [] ++ '&' :: after := hrest.symm
        exact ih hfront
      | cons d rest =>
        obtain ⟨rfl, rfl⟩ := List.cons.inj hrest
        exact ⟨_, ampersand_first hchar, List.prefix_append ('&' :: rest) (cs.flatMap htmlChar)⟩

section Reading

private theorem readAfter_skip (skipped rest : List Char) :
    readAfter skipped.length (skipped ++ rest) = readAfter 0 rest := by
  induction skipped with
  | nil => rfl
  | cons c cs ih => exact ih

/-- Of two entities in front of a text one begins with the other, so that they are the same. -/
private theorem entityAt?_entity {entity : Char × List Char} (h : entity ∈ entities)
    (rest : List Char) :
    entityAt? (entity.2 ++ rest) = some entity := by
  cases hfind : entityAt? (entity.2 ++ rest) with
  | none =>
    have hother := List.find?_eq_none.mp hfind entity h
    exact absurd (List.isPrefixOf_iff_prefix.mpr (List.prefix_append _ _)) hother
  | some other =>
    rw [entityAt?] at hfind
    have hmem := List.mem_of_find?_eq_some hfind
    have hother := List.find?_some hfind
    have hfront : other.2 <+: entity.2 ++ rest := List.isPrefixOf_iff_prefix.mp hother
    rcases List.prefix_or_prefix_of_prefix hfront (List.prefix_append entity.2 rest) with hp | hp
    · rw [entities_apart _ hmem _ h hp]
    · rw [entities_apart _ h _ hmem hp]

private theorem entityAt?_plain {c : Char} (h : c ≠ '&') (rest : List Char) :
    entityAt? (c :: rest) = none := by
  rw [entityAt?, List.find?_eq_none]
  intro entity hentity hfront
  rw [(entities_form _ hentity).1, List.isPrefixOf_iff_prefix, List.cons_prefix_cons] at hfront
  exact h hfront.1.symm

private theorem readAfter_htmlChar (c : Char) (rest : List Char) :
    readAfter 0 (htmlChar c ++ rest) = c :: readAfter 0 rest := by
  rcases htmlChar_cases c with ⟨name, hc, hentity, -⟩ | ⟨hc, hplain⟩
  · have hfound := entityAt?_entity hentity rest
    rw [List.cons_append] at hfound
    rw [hc, List.cons_append, readAfter, hfound]
    exact congrArg (c :: ·) (readAfter_skip name rest)
  · rw [hc, List.singleton_append, readAfter, entityAt?_plain hplain.ne_ampersand]

private theorem readAfter_escaped (cs : List Char) : readAfter 0 (cs.flatMap htmlChar) = cs := by
  induction cs with
  | nil => rfl
  | cons c cs ih => rw [List.flatMap_cons, readAfter_htmlChar, ih]

end Reading

private theorem unescape_html (s : String) : unescape (html s) = s := by
  rw [unescape, html, String.toList_ofList, readAfter_escaped, String.ofList_toList]

/-- Escaped text has no character that marks up but ampersands, with which entities begin, it is
escaped piece by piece, and its entities read back are the text. -/
theorem html_reversible (s t : String) :
    (∀ c ∈ (html s).toList, c ∉ ['<', '>', '\x22', '\x27']) ∧
    (∀ before after, (html s).toList = before ++ '&' :: after →
      ∃ entity ∈ entities, entity.2 <+: '&' :: after) ∧
    html (s ++ t) = html s ++ html t ∧ unescape (html s) = s ∧ (html s = html t → s = t) := by
  refine ⟨fun c hc => ?_, fun before after h => ?_, html_append s t, unescape_html s, fun h => ?_⟩
  · rcases mem_html hc with rfl | hplain
    · decide
    · exact hplain.unmarked
  · rw [html, String.toList_ofList] at h
    exact ampersand_begins h
  · rw [← unescape_html s, h, unescape_html]

end Stencil.Escape
