import Stencil.Markup.Delimiters
import Stencil.Proofs.Text.Blanks

/-!
# Forms of enclosures

What is found at a place is a front part of the text there: the delimiters, and between them any
text or a content with margins of blanks.
-/

namespace Stencil

open Text

def Pair.Encloses (p : Pair) (content source : List Char) : Prop :=
  ∃ lead trail, Blanks lead ∧ Blanks trail ∧
    source = p.opening ++ (lead ++ (content ++ (trail ++ p.closing)))

def Delimiters.pair (d : Delimiters) : TagKind → Pair
  | .expression => d.expression
  | .block => d.block

namespace Enclosure

def Form (d : Delimiters) (source : List Char) : Enclosure → Prop
  | comment n => n = source.length ∧
      ∃ inner, source = d.comment.opening ++ (inner ++ d.comment.closing)
  | tag kind content n => n = source.length ∧ (d.pair kind).Encloses content source

private theorem closingEnd_form {closing cs : List Char} {n : Nat}
    (h : closingEnd closing cs = some n) :
    ∃ inner rest, cs = inner ++ (closing ++ rest) ∧ n = inner.length + closing.length := by
  induction cs generalizing n with
  | nil =>
    rw [closingEnd] at h
    split at h
    · rename_i he
      have hnil : closing = [] := by simpa using he
      subst hnil
      exact ⟨[], [], rfl, (Option.some.inj h).symm⟩
    · simp at h
  | cons c cs ih =>
    rw [closingEnd] at h
    split at h
    · rename_i hp
      obtain ⟨rest, he⟩ := List.isPrefixOf_iff_prefix.mp hp
      exact ⟨[], rest, he.symm, by simpa using (Option.some.inj h).symm⟩
    · obtain ⟨m, hm, rfl⟩ := Option.map_eq_some_iff.mp h
      obtain ⟨inner, rest, rfl, rfl⟩ := ih hm
      exact ⟨c :: inner, rest, rfl, by simp only [List.length_cons]; omega⟩

private theorem marginEnd_form {closing cs : List Char} {most n : Nat}
    (h : marginEnd closing cs most = some n) :
    ∃ width rest, width ≤ most ∧ cs.drop width = closing ++ rest ∧ n = width + closing.length := by
  induction most with
  | zero =>
    rw [marginEnd] at h
    split at h
    · rename_i hp
      obtain ⟨rest, he⟩ := List.isPrefixOf_iff_prefix.mp hp
      exact ⟨0, rest, Nat.le_refl _, he.symm, by simpa using (Option.some.inj h).symm⟩
    · simp at h
  | succ most ih =>
    rw [marginEnd] at h
    split at h
    · rename_i hp
      obtain ⟨rest, he⟩ := List.isPrefixOf_iff_prefix.mp hp
      exact ⟨most + 1, rest, Nat.le_refl _, he.symm, (Option.some.inj h).symm⟩
    · obtain ⟨width, rest, hw, hd, hn⟩ := ih h
      exact ⟨width, rest, by omega, hd, hn⟩

private theorem blanks_take {cs : List Char} {width : Nat} (h : width ≤ blanks cs) :
    Blanks (cs.take width) ∧ (cs.take width).length = width := by
  have hcs : cs.takeWhile isBlank ++ cs.dropWhile isBlank = cs := List.takeWhile_append_dropWhile
  have htake : cs.take width = (cs.takeWhile isBlank).take width :=
    (congrArg (List.take width) hcs).symm.trans (List.take_append_of_le_length h)
  refine ⟨?_, ?_⟩
  · intro c hc
    rw [htake] at hc
    exact blanks_takeWhile cs c (List.mem_of_mem_take hc)
  · rw [htake, List.length_take]
    exact Nat.min_eq_left h

theorem marginEnd_blanks {closing cs : List Char} {n : Nat}
    (h : marginEnd closing cs (blanks cs) = some n) :
    ∃ trail rest, Blanks trail ∧ cs = trail ++ (closing ++ rest) ∧
      n = trail.length + closing.length := by
  obtain ⟨width, rest, hw, hd, hn⟩ := marginEnd_form h
  obtain ⟨hb, hl⟩ := blanks_take hw
  refine ⟨cs.take width, rest, hb, ?_, by rw [hl]; exact hn⟩
  rw [← hd, List.take_append_drop]

theorem contentEnd_cons (closing cs : List Char) (c : Char) :
    contentEnd closing (c :: cs) =
      match marginEnd closing (c :: cs) (blanks (c :: cs)) with
      | some n => some ([], n)
      | none => (contentEnd closing cs).map fun (content, n) => (c :: content, n + 1) :=
  (rfl)

theorem contentEnd_form {closing cs content : List Char} {n : Nat}
    (h : contentEnd closing cs = some (content, n)) :
    ∃ trail rest, Blanks trail ∧ cs = content ++ (trail ++ (closing ++ rest)) ∧
      n = content.length + (trail.length + closing.length) := by
  induction cs generalizing content n with
  | nil =>
    obtain ⟨m, hm, he⟩ := Option.map_eq_some_iff.mp h
    obtain ⟨rfl, rfl⟩ := Prod.mk.inj he
    have hm' : marginEnd closing [] (blanks []) = some m := hm
    obtain ⟨trail, rest, hb, hcs, hn⟩ := marginEnd_blanks hm'
    exact ⟨trail, rest, hb, hcs, by simpa using hn⟩
  | cons c cs ih =>
    rw [contentEnd_cons] at h
    split at h
    · rename_i m hm
      obtain ⟨rfl, rfl⟩ := Prod.mk.inj (Option.some.inj h)
      obtain ⟨trail, rest, hb, hcs, hn⟩ := marginEnd_blanks hm
      exact ⟨trail, rest, hb, hcs, by simpa using hn⟩
    · obtain ⟨⟨more, m⟩, hm, he⟩ := Option.map_eq_some_iff.mp h
      obtain ⟨rfl, rfl⟩ := Prod.mk.inj he
      obtain ⟨trail, rest, hb, rfl, rfl⟩ := ih hm
      exact ⟨trail, rest, hb, rfl, by simp only [List.length_cons]; omega⟩

theorem bodyEnd_form {closing cs content : List Char} {most n : Nat}
    (h : bodyEnd closing cs most = some (content, n)) :
    ∃ width trail rest, width ≤ most ∧ Blanks trail ∧
      cs.drop width = content ++ (trail ++ (closing ++ rest)) ∧
      n = width + (content.length + (trail.length + closing.length)) := by
  induction most generalizing n with
  | zero =>
    obtain ⟨trail, rest, hb, hcs, hn⟩ := contentEnd_form h
    exact ⟨0, trail, rest, Nat.le_refl _, hb, hcs, by simpa using hn⟩
  | succ most ih =>
    rw [bodyEnd] at h
    split at h
    · rename_i found m hm
      obtain ⟨rfl, rfl⟩ := Prod.mk.inj (Option.some.inj h)
      obtain ⟨trail, rest, hb, hcs, rfl⟩ := contentEnd_form hm
      exact ⟨most + 1, trail, rest, Nat.le_refl _, hb, hcs, rfl⟩
    · obtain ⟨width, trail, rest, hw, hb, hcs, hn⟩ := ih h
      exact ⟨width, trail, rest, by omega, hb, hcs, hn⟩

theorem comment?_form {p : Pair} {cs : List Char} {e : Enclosure} (h : comment? p cs = some e) :
    ∃ inner rest, cs = (p.opening ++ (inner ++ p.closing)) ++ rest ∧
      e = .comment (p.opening ++ (inner ++ p.closing)).length := by
  rw [comment?] at h
  split at h
  · rename_i hp
    obtain ⟨tail, rfl⟩ := List.isPrefixOf_iff_prefix.mp hp
    rw [List.drop_left] at h
    obtain ⟨n, hn, rfl⟩ := Option.map_eq_some_iff.mp h
    obtain ⟨inner, rest, rfl, rfl⟩ := closingEnd_form hn
    exact ⟨inner, rest, by simp only [List.append_assoc], by simp only [List.length_append]⟩
  · simp at h

theorem tag?_form {kind : TagKind} {p : Pair} {cs : List Char} {e : Enclosure}
    (h : tag? kind p cs = some e) :
    ∃ content source rest, cs = source ++ rest ∧ p.Encloses content source ∧
      e = .tag kind content source.length := by
  rw [tag?] at h
  split at h
  · rename_i hp
    obtain ⟨body, rfl⟩ := List.isPrefixOf_iff_prefix.mp hp
    rw [List.drop_left] at h
    obtain ⟨⟨content, n⟩, hn, rfl⟩ := Option.map_eq_some_iff.mp h
    obtain ⟨width, trail, rest, hw, hb, hbody, rfl⟩ := bodyEnd_form hn
    obtain ⟨hlead, hlen⟩ := blanks_take hw
    refine ⟨content, p.opening ++ (body.take width ++ (content ++ (trail ++ p.closing))), rest, ?_,
      ⟨body.take width, trail, hlead, hb, rfl⟩, ?_⟩
    · have hsplit : body.take width ++ (content ++ (trail ++ (p.closing ++ rest))) = body := by
        rw [← hbody, List.take_append_drop]
      simp only [List.append_assoc, hsplit]
    · simp only [List.length_append, hlen]
  · simp at h

end Enclosure

theorem Delimiters.enclosure?_form {d : Delimiters} {cs : List Char} {e : Enclosure}
    (h : d.enclosure? cs = some e) : ∃ source rest, cs = source ++ rest ∧ e.Form d source := by
  simp only [enclosure?, Option.or_eq_some_iff] at h
  rcases h with hc | ⟨_, ht | ⟨_, ht⟩⟩
  · obtain ⟨inner, rest, rfl, rfl⟩ := Enclosure.comment?_form hc
    exact ⟨_, rest, rfl, rfl, inner, rfl⟩
  · obtain ⟨content, source, rest, rfl, hs, rfl⟩ := Enclosure.tag?_form ht
    exact ⟨source, rest, rfl, rfl, hs⟩
  · obtain ⟨content, source, rest, rfl, hs, rfl⟩ := Enclosure.tag?_form ht
    exact ⟨source, rest, rfl, rfl, hs⟩

end Stencil
