import Stencil.Proofs.Markup.Printing

/-!
# Fastened tags

The search for a closing delimiter fails exactly if there is none. What it finds is the first one,
with all blanks inside the delimiters in the margins.
-/

namespace Stencil

open Text

/-- A text that begins with an opening delimiter and has its closing one further on. -/
def Pair.Begins (p : Pair) (cs : List Char) : Prop :=
  ∃ inner rest, cs = p.opening ++ (inner ++ (p.closing ++ rest))

def EndsFirst (closing cs : List Char) : Prop :=
  ∀ before after, cs = before ++ (closing ++ after) → after = []

/-- Delimiters around a content, which has no blanks at its ends, and its margins, up to the first
closing one. -/
structure Pair.Fastens (p : Pair) (content source : List Char) : Prop where
  front : Solid content
  back : Solid content.reverse
  margins : ∃ lead trail, Blanks lead ∧ Blanks trail ∧
    source = p.opening ++ (lead ++ (content ++ (trail ++ p.closing))) ∧
    EndsFirst p.closing (lead ++ (content ++ (trail ++ p.closing)))

theorem Pair.begins_iff {p : Pair} {cs : List Char} :
    p.Begins cs ↔ p.opening <+: cs ∧ p.closing <:+: cs.drop p.opening.length := by
  constructor
  · rintro ⟨inner, rest, rfl⟩
    rw [List.drop_left]
    exact ⟨List.prefix_append _ _, inner, rest, List.append_assoc _ _ _⟩
  · rintro ⟨⟨body, rfl⟩, hclosing⟩
    rw [List.drop_left] at hclosing
    obtain ⟨inner, rest, rfl⟩ := hclosing
    exact ⟨inner, rest, by rw [List.append_assoc]⟩

theorem Pair.Begins.append {p : Pair} {cs : List Char} (h : p.Begins cs) (more : List Char) :
    p.Begins (cs ++ more) := by
  obtain ⟨inner, rest, rfl⟩ := h
  exact ⟨inner, rest ++ more, by simp only [List.append_assoc]⟩

namespace Enclosure

variable {closing cs content : List Char} {n : Nat}

private theorem closingEnd_eq_none : closingEnd closing cs = none ↔ ¬ closing <:+: cs := by
  induction cs with
  | nil => simp [closingEnd]
  | cons c cs ih =>
    rw [closingEnd, List.infix_cons_iff]
    by_cases hp : closing <+: c :: cs
    · simp [hp]
    · simp [hp, ih]

private theorem marginEnd_eq_none {most : Nat} (h : marginEnd closing cs most = none) {width : Nat}
    (hw : width ≤ most) : ¬ closing <+: cs.drop width := by
  induction most with
  | zero =>
    obtain rfl : width = 0 := Nat.le_zero.mp hw
    simpa [marginEnd] using h
  | succ most ih =>
    rw [marginEnd] at h
    split at h
    · cases h
    · rename_i hp
      rcases Nat.lt_or_ge most width with hlt | hge
      · obtain rfl : width = most + 1 := by omega
        simpa using hp
      · exact ih h hge

private theorem contentEnd_eq_none : contentEnd closing cs = none ↔ ¬ closing <:+: cs := by
  constructor
  · intro h
    induction cs with
    | nil =>
      have hmargin : marginEnd closing [] 0 = none := Option.map_eq_none_iff.mp h
      have hno := marginEnd_eq_none hmargin (Nat.le_refl 0)
      simpa using hno
    | cons c cs ih =>
      rw [contentEnd_cons] at h
      split at h
      · cases h
      · rename_i hmargin
        have hhere : ¬ closing <+: c :: cs := marginEnd_eq_none hmargin (Nat.zero_le _)
        rw [List.infix_cons_iff, not_or]
        exact ⟨hhere, ih (Option.map_eq_none_iff.mp h)⟩
  · intro h
    rw [Option.eq_none_iff_forall_not_mem]
    rintro ⟨content, n⟩ hfound
    obtain ⟨trail, rest, -, rfl, -⟩ := contentEnd_form hfound
    exact h ⟨content ++ trail, rest, by simp only [List.append_assoc]⟩

private theorem bodyEnd_eq_none {most : Nat} :
    bodyEnd closing cs most = none ↔ ¬ closing <:+: cs := by
  constructor
  · intro h
    induction most with
    | zero => exact contentEnd_eq_none.mp h
    | succ most ih =>
      rw [bodyEnd] at h
      split at h
      · cases h
      · exact ih h
  · intro h
    rw [Option.eq_none_iff_forall_not_mem]
    rintro ⟨content, n⟩ hfound
    obtain ⟨width, trail, rest, -, -, hbody, -⟩ := bodyEnd_form hfound
    have hinside : closing <:+: cs.drop width :=
      ⟨content ++ trail, rest, by rw [hbody]; simp only [List.append_assoc]⟩
    exact h (hinside.trans (List.drop_suffix width cs).isInfix)

private theorem bodyEnd_found {width m : Nat}
    (h : contentEnd closing (cs.drop width) = some (content, m)) :
    bodyEnd closing cs width = some (content, width + m) := by
  cases width with
  | zero => simpa [bodyEnd] using h
  | succ width => rw [bodyEnd, h]

theorem comment?_eq_none {p : Pair} : comment? p cs = none ↔ ¬ p.Begins cs := by
  rw [comment?, Pair.begins_iff]
  by_cases hp : p.opening <+: cs
  · simp [hp, closingEnd_eq_none]
  · simp [hp]

theorem tag?_eq_none {kind : TagKind} {p : Pair} : tag? kind p cs = none ↔ ¬ p.Begins cs := by
  rw [tag?, Pair.begins_iff]
  by_cases hp : p.opening <+: cs
  · simp [hp, bodyEnd_eq_none]
  · simp [hp]

section Solid

private theorem endsFirst_self (closing : List Char) : EndsFirst closing closing := by
  intro before after he
  have hlength := congrArg List.length he
  simp only [List.length_append] at hlength
  exact List.length_eq_zero_iff.mp (by omega)

variable (hne : closing ≠ []) (hc : ∀ c ∈ closing, isBlank c = false)

include hne hc

/-- A delimiter without blanks does not begin inside a margin. -/
private theorem endsFirst_blanks {gap body : List Char} (hg : Blanks gap)
    (h : EndsFirst closing body) :
    EndsFirst closing (gap ++ body) := by
  intro before after he
  rcases List.append_eq_append_iff.mp he with ⟨more, rfl, hbody⟩ | ⟨more, rfl, hmore⟩
  · exact h more after hbody
  · cases more with
    | nil => exact h [] after (by simpa using hmore.symm)
    | cons b more =>
      cases closing with
      | nil => exact absurd rfl hne
      | cons d closing =>
        obtain ⟨rfl, -⟩ := List.cons.inj hmore
        have hblank := hg d (by simp)
        rw [hc d List.mem_cons_self] at hblank
        cases hblank

private theorem contentEnd_endsFirst (h : contentEnd closing cs = some (content, n)) :
    ∃ trail rest, Blanks trail ∧ cs = content ++ (trail ++ (closing ++ rest)) ∧
      n = content.length + (trail.length + closing.length) ∧
      EndsFirst closing (content ++ (trail ++ closing)) := by
  induction cs generalizing content n with
  | nil =>
    have hinfix : ¬ closing <:+: [] := by simpa using hne
    rw [contentEnd_eq_none.mpr hinfix] at h
    cases h
  | cons c cs ih =>
    rw [contentEnd_cons] at h
    split at h
    · rename_i m hm
      obtain ⟨rfl, rfl⟩ := Prod.mk.inj (Option.some.inj h)
      obtain ⟨trail, rest, hb, hcs, hn⟩ := marginEnd_blanks hm
      have hfirst := endsFirst_blanks hne hc hb (endsFirst_self closing)
      exact ⟨trail, rest, hb, hcs, by simpa using hn, hfirst⟩
    · rename_i hm
      obtain ⟨⟨more, m⟩, hmore, he⟩ := Option.map_eq_some_iff.mp h
      obtain ⟨rfl, rfl⟩ := Prod.mk.inj he
      obtain ⟨trail, rest, hb, rfl, rfl, hfirst⟩ := ih hmore
      refine ⟨trail, rest, hb, rfl, by simp only [List.length_cons]; omega, ?_⟩
      intro before after hcut
      cases before with
      | nil =>
        -- A delimiter that begins here would have ended the content here.
        have hhere : ¬ closing <+: c :: (more ++ (trail ++ (closing ++ rest))) :=
          marginEnd_eq_none hm (Nat.zero_le _)
        refine absurd ⟨after ++ rest, ?_⟩ hhere
        have hall := congrArg (· ++ rest) hcut
        simpa only [List.nil_append, List.cons_append, List.append_assoc] using hall.symm
      | cons b before => exact hfirst before after (List.cons.inj hcut).2

/-- A blank at the end of a content would have gone to the margin. -/
private theorem contentEnd_last (h : contentEnd closing cs = some (content, n)) :
    ∀ c ∈ content.getLast?, isBlank c = false := by
  induction cs generalizing content n with
  | nil =>
    obtain ⟨m, -, he⟩ := Option.map_eq_some_iff.mp h
    obtain ⟨rfl, -⟩ := Prod.mk.inj he
    simp
  | cons c cs ih =>
    rw [contentEnd_cons] at h
    split at h
    · obtain ⟨rfl, -⟩ := Prod.mk.inj (Option.some.inj h)
      simp
    · rename_i hm
      obtain ⟨⟨more, m⟩, hmore, he⟩ := Option.map_eq_some_iff.mp h
      obtain ⟨rfl, -⟩ := Prod.mk.inj he
      cases more with
      | cons d more =>
        rw [List.getLast?_cons_cons]
        exact ih hmore
      | nil =>
        intro d hd
        obtain rfl : c = d := by simpa using hd
        by_contra hblank
        obtain ⟨trail, rest, htrail, rfl, -⟩ := contentEnd_form hmore
        have hb : Blanks (c :: trail) := by
          intro x hx
          rcases List.mem_cons.mp hx with rfl | hx
          · simpa using hblank
          · exact htrail x hx
        have hwide : (c :: trail).length ≤ blanks (c :: ([] ++ (trail ++ (closing ++ rest)))) := by
          have htake := takeWhile_blanks hb (solid_append hc hne rest)
          rw [blanks, List.nil_append, ← List.cons_append, htake]
        refine marginEnd_eq_none hm hwide ?_
        rw [List.nil_append, ← List.cons_append, List.drop_left]
        exact List.prefix_append _ _

private theorem infix_of_blanks {gap : List Char} (hg : Blanks gap) (h : closing <:+: gap ++ cs) :
    closing <:+: cs := by
  induction gap with
  | nil => exact h
  | cons b gap ih =>
    rcases List.infix_cons_iff.mp h with hp | hi
    · cases closing with
      | nil => exact absurd rfl hne
      | cons c closing =>
        obtain rfl : c = b := (List.cons_prefix_cons.mp hp).1
        have hblank := hg c List.mem_cons_self
        rw [hc c List.mem_cons_self] at hblank
        cases hblank
    · exact ih (fun c hm => hg c (List.mem_cons_of_mem _ hm)) hi

/-- The lead takes all blanks: a closing delimiter anywhere is one behind them. -/
private theorem bodyEnd_widest {lead body : List Char} (hl : Blanks lead)
    (hb : body = [] ∨ Solid body)
    (h : bodyEnd closing (lead ++ body) (blanks (lead ++ body)) = some (content, n)) :
    ∃ m, contentEnd closing body = some (content, m) ∧ n = lead.length + m := by
  have hwidth : blanks (lead ++ body) = lead.length := by
    have hhead : ∀ c ∈ body.head?, isBlank c = false :=
      hb.elim (fun he => by simp [he]) fun hs => hs.head
    rw [blanks, takeWhile_run hl hhead]
  cases hfound : contentEnd closing body with
  | none =>
    have hnone : ¬ closing <:+: lead ++ body :=
      fun hi => contentEnd_eq_none.mp hfound (infix_of_blanks hne hc hl hi)
    rw [bodyEnd_eq_none.mpr hnone] at h
    cases h
  | some found =>
    obtain ⟨inner, m⟩ := found
    rw [hwidth, bodyEnd_found (by rw [List.drop_left]; exact hfound)] at h
    obtain ⟨rfl, rfl⟩ := Prod.mk.inj (Option.some.inj h)
    exact ⟨m, rfl, rfl⟩

end Solid

theorem tag?_fastens {kind : TagKind} {p : Pair} (hne : p.closing ≠ [])
    (hc : ∀ c ∈ p.closing, isBlank c = false) {e : Enclosure} (h : tag? kind p cs = some e) :
    ∃ content source rest, cs = source ++ rest ∧ e = .tag kind content source.length ∧
      (content ≠ [] → p.Fastens content source) := by
  rw [tag?] at h
  split at h
  · rename_i hp
    obtain ⟨body, rfl⟩ := List.isPrefixOf_iff_prefix.mp hp
    rw [List.drop_left] at h
    obtain ⟨⟨content, n⟩, hn, rfl⟩ := Option.map_eq_some_iff.mp h
    have hbody : body.takeWhile isBlank ++ body.dropWhile isBlank = body :=
      List.takeWhile_append_dropWhile
    have hlead := blanks_takeWhile body
    have hsolid := solid_dropWhile body
    generalize body.takeWhile isBlank = lead at *
    generalize body.dropWhile isBlank = inner at *
    subst hbody
    obtain ⟨m, hm, rfl⟩ := bodyEnd_widest hne hc hlead hsolid hn
    obtain ⟨trail, rest, htrail, rfl, rfl, hfirst⟩ := contentEnd_endsFirst hne hc hm
    refine ⟨content, p.opening ++ (lead ++ (content ++ (trail ++ p.closing))), rest, ?_, ?_, ?_⟩
    · simp only [List.append_assoc]
    · simp only [List.length_append]
    · intro hcontent
      refine ⟨?_, ?_, lead, trail, hlead, htrail, rfl, ?_⟩
      · cases content with
        | nil => exact absurd rfl hcontent
        | cons c content => exact hsolid.resolve_left (by simp)
      · have hlast := contentEnd_last hne hc hm
        rw [← List.head?_reverse] at hlast
        cases hr : content.reverse with
        | nil => exact absurd (List.reverse_eq_nil_iff.mp hr) hcontent
        | cons c back => exact hlast c (by simp [hr])
      · exact endsFirst_blanks hne hc hlead hfirst
  · simp at h

end Enclosure

end Stencil
