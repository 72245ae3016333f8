import Stencil.Expr.Parser
import Stencil.Expr.Targets
import Stencil.Proofs.Expr.Names
import Stencil.Proofs.Text.Blanks
import Stencil.Template.Tag

/-!
# Forms of block tags

A block tag said as a form: words, gaps of blanks and arguments that begin with no blank. Readers
that give blanks back agree with the forms wherever the argument is an expression, because blanks
alone are none.
-/

namespace Stencil

open Text

/-- A word, a gap and an argument. -/
def WordForm (word argument content : List Char) : Prop :=
  ∃ gap, gap ≠ [] ∧ Blanks gap ∧ Solid argument ∧ content = word ++ gap ++ argument

def InForm (cs : List Char) : Prop :=
  ∃ gap gap' rest, gap ≠ [] ∧ Blanks gap ∧ gap' ≠ [] ∧ Blanks gap' ∧
    cs = gap ++ ['i', 'n'] ++ gap' ++ rest

/-- The header of a loop: the names end at the first `in` between blanks. -/
def LoopForm (names items content : List Char) : Prop :=
  ∃ gap₁ gap₂ gap₃, gap₁ ≠ [] ∧ Blanks gap₁ ∧ gap₂ ≠ [] ∧ Blanks gap₂ ∧ gap₃ ≠ [] ∧ Blanks gap₃ ∧
    Solid names ∧ Solid items ∧
    content = ['f', 'o', 'r'] ++ gap₁ ++ names ++ (gap₂ ++ ['i', 'n'] ++ gap₃ ++ items) ∧
    ∀ front back, names = front ++ back → front ≠ [] → back ≠ [] →
      ¬ InForm (back ++ (gap₂ ++ ['i', 'n'] ++ gap₃ ++ items))

/-- A gap and what it leaves. It takes all blanks, or all but the last if nothing follows them. -/
def Gapped (argument cs : List Char) : Prop :=
  ∃ gap, gap ≠ [] ∧ Blanks gap ∧ cs = gap ++ argument ∧
    (Solid argument ∨ ∃ c, isBlank c = true ∧ argument = [c])

def WordTag (word argument content : List Char) : Prop :=
  ∃ rest, content = word ++ rest ∧ Gapped argument rest

def InTag (items cs : List Char) : Prop :=
  ∃ gap rest, gap ≠ [] ∧ Blanks gap ∧ cs = gap ++ ['i', 'n'] ++ rest ∧ Gapped items rest

/-- The shortest names that an `in` follows. -/
def NamesTag (names items cs : List Char) : Prop :=
  ∃ tail, cs = names ++ tail ∧ names ≠ [] ∧ InTag items tail ∧
    ∀ front back, names = front ++ back → front ≠ [] → back ≠ [] →
      ∀ found, ¬ InTag found (back ++ tail)

/-- The header of a loop, whose first gap is the widest that leaves names and items. -/
def LoopTag (names items content : List Char) : Prop :=
  ∃ gap rest, gap ≠ [] ∧ Blanks gap ∧ content = ['f', 'o', 'r'] ++ (gap ++ rest) ∧
    NamesTag names items rest ∧
    ∀ more after, rest = more ++ after → more ≠ [] → Blanks more →
      ∀ names' items', ¬ NamesTag names' items' after

/-- The tags that begin a step. -/
inductive Header.Form : Header → List Char → Prop where
  | choice {condition content} : WordTag ['i', 'f'] condition content →
      Form (.choice condition) content
  | loop {names items content} : LoopTag names items content → Form (.loop names items) content
  | insertion {target content} : WordTag ['i', 'n', 'c', 'l', 'u', 'd', 'e'] target content →
      Form (.insertion target) content

/-- The tags inside a choice. -/
inductive Branch.Form : Branch → List Char → Prop where
  | clause {condition content} : WordTag ['e', 'l', 'i', 'f'] condition content →
      Form (.clause condition) content
  | otherwise : Form .otherwise ['e', 'l', 's', 'e']
  | ending : Form .ending ['e', 'n', 'd', 'i', 'f']

section Forms

variable {word argument content names items cs : List Char}

private theorem Gapped.blank (h : Gapped argument cs) (hs : ¬ Solid argument) :
    Blanks argument := by
  obtain ⟨_, _, _, _, ha | ⟨c, hc, rfl⟩⟩ := h
  · exact absurd ha hs
  · simpa [Blanks] using hc

theorem WordTag.blank (h : WordTag word argument content) (hs : ¬ Solid argument) :
    Blanks argument := by
  obtain ⟨rest, -, hgapped⟩ := h
  exact hgapped.blank hs

private theorem gapped_solid (hs : Solid argument) :
    Gapped argument cs ↔ ∃ gap, gap ≠ [] ∧ Blanks gap ∧ cs = gap ++ argument :=
  ⟨fun ⟨gap, hn, hg, he, _⟩ => ⟨gap, hn, hg, he⟩,
    fun ⟨gap, hn, hg, he⟩ => ⟨gap, hn, hg, he, .inl hs⟩⟩

private theorem exists_gapped {gap rest : List Char} (hn : gap ≠ []) (hg : Blanks gap)
    (h : ¬ Blanks (gap ++ rest)) : ∃ argument, Gapped argument (gap ++ rest) := by
  have hcs := List.takeWhile_append_dropWhile (p := isBlank) (l := gap ++ rest)
  have hsolid : Solid ((gap ++ rest).dropWhile isBlank) := by
    refine (solid_dropWhile _).resolve_left fun hnil => h ?_
    rw [hnil, List.append_nil] at hcs
    rw [← hcs]
    exact blanks_takeWhile _
  refine ⟨_, _, ?_, blanks_takeWhile _, hcs.symm, .inl hsolid⟩
  obtain ⟨c, gap, rfl⟩ := List.exists_cons_of_ne_nil hn
  rw [List.cons_append, List.takeWhile_cons_of_pos (hg c List.mem_cons_self)]
  exact List.cons_ne_nil _ _

theorem wordForm_iff : WordForm word argument content ↔
    WordTag word argument content ∧ Solid argument := by
  constructor
  · rintro ⟨gap, hn, hg, hs, rfl⟩
    exact ⟨⟨gap ++ argument, List.append_assoc _ _ _, gap, hn, hg, rfl, .inl hs⟩, hs⟩
  · rintro ⟨⟨_, rfl, gap, hn, hg, rfl, -⟩, hs⟩
    exact ⟨gap, hn, hg, hs, (List.append_assoc _ _ _).symm⟩

private theorem InTag.form (h : InTag items cs) : InForm cs := by
  obtain ⟨gap, _, hn, hg, rfl, gap', hn', hg', rfl, -⟩ := h
  exact ⟨gap, gap', items, hn, hg, hn', hg', (List.append_assoc _ _ _).symm⟩

/-- The items of a loop are no blanks, so an `in` before them has more than a single blank behind
it. -/
private theorem InForm.tag {gap₂ gap₃ : List Char} (hs : Solid items)
    (h : InForm (cs ++ (gap₂ ++ ['i', 'n'] ++ gap₃ ++ items))) :
    ∃ found, InTag found (cs ++ (gap₂ ++ ['i', 'n'] ++ gap₃ ++ items)) := by
  obtain ⟨gap, gap', rest, hn, hg, hn', hg', he⟩ := h
  have hrest : ¬ Blanks (gap' ++ rest) := by
    intro hblank
    have hnone : ∀ {ds : List Char}, Blanks ds → ds.countP (fun c => !isBlank c) = 0 := by
      intro ds hds
      rw [List.countP_eq_zero]
      intro c hc
      simp [hds c hc]
    have hitems : 0 < items.countP fun c => !isBlank c := by
      cases items with
      | nil => exact hs.elim
      | cons c items =>
        have hc : isBlank c = false := hs
        simp [hc]
    have hcount := congrArg (List.countP fun c => !isBlank c) he
    rw [List.append_assoc _ gap' rest] at hcount
    simp only [List.countP_append, hnone hg] at hcount
    have hboth := hnone hblank
    rw [List.countP_append] at hboth
    omega
  obtain ⟨found, hfound⟩ := exists_gapped hn' hg' hrest
  exact ⟨found, gap, gap' ++ rest, hn, hg, by rw [he, List.append_assoc _ gap' rest], hfound⟩

private theorem NamesTag.drop {front : List Char} (hn : names ≠ [])
    (h : NamesTag (front ++ names) items (front ++ cs)) : NamesTag names items cs := by
  obtain ⟨tail, he, -, hin, hmin⟩ := h
  refine ⟨tail, by simpa using he, hn, hin, fun f b hfb hf hb => ?_⟩
  exact hmin (front ++ f) b (by rw [hfb, List.append_assoc]) (by simp [hf]) hb

/-- Of the names and items of a loop those that begin with no blank are the ones of the form. -/
theorem loopForm_iff : LoopForm names items content ↔
    LoopTag names items content ∧ Solid names ∧ Solid items := by
  constructor
  · rintro ⟨gap₁, gap₂, gap₃, hn₁, hg₁, hn₂, hg₂, hn₃, hg₃, hnames, hitems, rfl, hfirst⟩
    refine ⟨⟨gap₁, names ++ (gap₂ ++ ['i', 'n'] ++ gap₃ ++ items), hn₁, hg₁, by simp,
      ⟨_, rfl, ?_, ?_, fun front back he hf hb found hin => hfirst front back he hf hb hin.form⟩,
      ?_⟩, hnames, hitems⟩
    · rintro rfl
      exact hnames
    · exact ⟨gap₂, gap₃ ++ items, hn₂, hg₂, by simp, gap₃, hn₃, hg₃, rfl, .inl hitems⟩
    · intro more after he hne hblank
      obtain ⟨c, more, rfl⟩ := List.exists_cons_of_ne_nil hne
      have hc : isBlank c = false := (hnames.append _).head c (by rw [he]; rfl)
      rw [hblank c List.mem_cons_self] at hc
      cases hc
  · rintro ⟨⟨gap₁, _, hn₁, hg₁, rfl, ⟨_, rfl, -, ⟨gap₂, _, hn₂, hg₂, rfl, hgapped⟩, hmin⟩, -⟩,
      hnames, hitems⟩
    obtain ⟨gap₃, hn₃, hg₃, rfl⟩ := (gapped_solid hitems).mp hgapped
    rw [← List.append_assoc _ gap₃ items] at hmin
    refine ⟨gap₁, gap₂, gap₃, hn₁, hg₁, hn₂, hg₂, hn₃, hg₃, hnames, hitems, by simp, ?_⟩
    intro front back he hf hb hin
    obtain ⟨found, hfound⟩ := hin.tag hitems
    exact hmin front back he hf hb found hfound

theorem LoopTag.items_blank (h : LoopTag names items content) (hs : ¬ Solid items) :
    Blanks items := by
  obtain ⟨_, _, -, -, -, ⟨_, -, -, ⟨_, _, -, -, -, hgapped⟩, -⟩, -⟩ := h
  exact hgapped.blank hs

/-- The names of a loop are blanks if they begin with one: the first gap is as wide as it can be. -/
theorem LoopTag.names_blank (h : LoopTag names items content) (hs : ¬ Solid names) :
    Blanks names := by
  obtain ⟨gap, rest, -, -, -, hfound, hwidest⟩ := h
  have hnames := List.takeWhile_append_dropWhile (p := isBlank) (l := names)
  by_cases hrest : names.dropWhile isBlank = []
  · rw [hrest, List.append_nil] at hnames
    rw [← hnames]
    exact blanks_takeWhile names
  · obtain ⟨tail, rfl, hn, hin, hmin⟩ := hfound
    have hlead : names.takeWhile isBlank ≠ [] := by
      intro hnil
      rw [hnil, List.nil_append] at hnames
      exact hs (hnames ▸ (solid_dropWhile names).resolve_left hrest)
    have hcut : names ++ tail =
        names.takeWhile isBlank ++ (names.dropWhile isBlank ++ tail) := by
      rw [← List.append_assoc, hnames]
    have hwhole : NamesTag (names.takeWhile isBlank ++ names.dropWhile isBlank) items
        (names.takeWhile isBlank ++ (names.dropWhile isBlank ++ tail)) := by
      rw [← hcut, hnames]
      exact ⟨tail, rfl, hn, hin, hmin⟩
    exact absurd (hwhole.drop hrest) (hwidest _ _ hcut hlead (blanks_takeWhile names) _ _)

end Forms

namespace Header

variable {word argument content names items cs : List Char}

private theorem afterGap_blanks {gap : List Char} (hn : gap ≠ []) (hg : Blanks gap)
    (ha : Solid argument) : afterGap (gap ++ argument) = some argument := by
  rw [afterGap, takeWhile_blanks hg ha, dropWhile_blanks hg ha]
  cases gap with
  | nil => exact absurd rfl hn
  | cons g gap =>
    cases argument with
    | nil => exact ha.elim
    | cons c cs => cases gap <;> rfl

private theorem afterGap_blank {gap : List Char} {c : Char} (hn : gap ≠ [])
    (h : Blanks (gap ++ [c])) :
    afterGap (gap ++ [c]) = some [c] := by
  have hall : ∀ d ∈ gap ++ [c], isBlank d = true := h
  rw [afterGap, List.takeWhile_eq_self_iff.mpr hall, List.dropWhile_eq_nil_iff.mpr hall]
  match gap, hn with
  | [b], _ => rfl
  | b :: d :: gap, _ => simp

private theorem afterGap_iff : afterGap cs = some argument ↔ Gapped argument cs := by
  constructor
  · intro h
    have hcs : cs.takeWhile isBlank ++ cs.dropWhile isBlank = cs := List.takeWhile_append_dropWhile
    have hg := blanks_takeWhile cs
    have hs := solid_dropWhile cs
    cases hrest : cs.dropWhile isBlank with
    | nil =>
      rw [hrest, List.append_nil] at hcs
      rw [hcs] at hg
      rcases List.eq_nil_or_concat cs with rfl | ⟨gap, c, rfl⟩
      · cases h
      · rw [List.concat_eq_append] at h hg
        by_cases hn : gap = []
        · subst hn
          have hc : isBlank c = true := by simpa [Blanks] using hg
          simp [afterGap, hc] at h
        · rw [afterGap_blank hn hg] at h
          cases h
          obtain ⟨hgap, hc⟩ := List.forall_mem_append.mp hg
          exact ⟨gap, hn, hgap, List.concat_eq_append, .inr ⟨c, by simpa using hc, rfl⟩⟩
    | cons d rest =>
      have hd : Solid (d :: rest) := hrest ▸ hs.resolve_left (by simp [hrest])
      have hn : cs.takeWhile isBlank ≠ [] := by
        intro hnil
        rw [afterGap, hnil] at h
        cases h
      rw [hrest] at hcs
      rw [← hcs, afterGap_blanks hn hg hd] at h
      cases h
      exact ⟨_, hn, hg, hcs.symm, .inl hd⟩
  · rintro ⟨gap, hn, hg, rfl, ha | ⟨c, hc, rfl⟩⟩
    · exact afterGap_blanks hn hg ha
    · exact afterGap_blank hn (List.forall_mem_append.mpr ⟨hg, by simpa using hc⟩)

private theorem afterWord_iff :
    afterWord word content = some argument ↔ WordTag word argument content := by
  unfold afterWord
  constructor
  · intro h
    split at h
    · next hp =>
      obtain ⟨rest, rfl⟩ := List.isPrefixOf_iff_prefix.mp hp
      rw [List.drop_left] at h
      exact ⟨rest, rfl, afterGap_iff.mp h⟩
    · cases h
  · rintro ⟨rest, rfl, hrest⟩
    rw [if_pos (List.isPrefixOf_iff_prefix.mpr (List.prefix_append _ _)), List.drop_left]
    exact afterGap_iff.mpr hrest

private theorem afterIn_iff : afterIn cs = some items ↔ InTag items cs := by
  constructor
  · intro h
    unfold afterIn at h
    split at h
    · next hb =>
      obtain ⟨rest, hrest, hgapped⟩ := afterWord_iff.mp h
      have hcs : cs.takeWhile isBlank ++ cs.dropWhile isBlank = cs :=
        List.takeWhile_append_dropWhile
      refine ⟨cs.takeWhile isBlank, rest, ?_, blanks_takeWhile cs, ?_, hgapped⟩
      · cases cs with
        | nil => cases hb
        | cons c cs =>
          have hc : isBlank c = true := by simpa using hb
          simp [hc]
      · rw [List.append_assoc, ← hrest, hcs]
    · cases h
  · rintro ⟨gap, rest, hn, hg, rfl, hgapped⟩
    obtain ⟨b, gap, rfl⟩ := List.exists_cons_of_ne_nil hn
    have hi : Solid (['i', 'n'] ++ rest) := by
      change isBlank 'i' = false
      decide
    rw [afterIn, List.append_assoc, dropWhile_blanks hg hi,
      afterWord_iff.mpr ⟨rest, rfl, hgapped⟩]
    simp [hg b List.mem_cons_self]

private theorem afterIn_eq_none_iff : afterIn cs = none ↔ ∀ found, ¬ InTag found cs := by
  rw [Option.eq_none_iff_forall_ne_some]
  exact forall_congr' fun found => not_congr afterIn_iff

private theorem splitIn_eq_some (h : splitIn cs = some (names, items)) :
    NamesTag names items cs := by
  induction cs generalizing names with
  | nil => cases h
  | cons c cs ih =>
    rw [splitIn] at h
    cases hi : afterIn cs with
    | some found =>
      rw [hi] at h
      cases h
      refine ⟨cs, rfl, by simp, afterIn_iff.mp hi, ?_⟩
      intro front back he hf hb
      obtain ⟨d, front, rfl⟩ := List.exists_cons_of_ne_nil hf
      have hnil : front = [] ∧ back = [] := by simpa using (List.cons.inj he).2.symm
      exact absurd hnil.2 hb
    | none =>
      rw [hi] at h
      obtain ⟨⟨rest, found⟩, hr, he⟩ := Option.map_eq_some_iff.mp h
      cases he
      obtain ⟨tail, rfl, hn, ht, hmin⟩ := ih hr
      refine ⟨tail, rfl, by simp, ht, ?_⟩
      intro front back he hf hb
      obtain ⟨d, front, rfl⟩ := List.exists_cons_of_ne_nil hf
      have hrest : rest = front ++ back := (List.cons.inj he).2
      by_cases hfront : front = []
      · subst hfront
        rw [List.nil_append] at hrest
        rw [← hrest]
        exact afterIn_eq_none_iff.mp hi
      · exact hmin front back hrest hfront hb

private theorem splitIn_iff : splitIn cs = some (names, items) ↔ NamesTag names items cs := by
  refine ⟨splitIn_eq_some, ?_⟩
  rintro ⟨tail, rfl, hn, ht, hmin⟩
  induction names with
  | nil => exact absurd rfl hn
  | cons c names ih =>
    cases names with
    | nil => simp [splitIn, afterIn_iff.mpr ht]
    | cons d names =>
      have hnone : afterIn (d :: names ++ tail) = none :=
        afterIn_eq_none_iff.mpr (hmin [c] (d :: names) rfl (by simp) (by simp))
      have hrest : splitIn (d :: names ++ tail) = some (d :: names, items) := by
        apply ih (by simp)
        intro front back he hf hb
        exact hmin (c :: front) back (by rw [he, List.cons_append]) (by simp) hb
      rw [List.cons_append, splitIn, hnone, hrest]
      rfl

private theorem splitIn_eq_none_iff :
    splitIn cs = none ↔ ∀ names items, ¬ NamesTag names items cs := by
  rw [Option.eq_none_iff_forall_ne_some, Prod.forall]
  exact forall_congr' fun names => forall_congr' fun items => not_congr splitIn_iff

private theorem splitLoop_iff {most : Nat} : splitLoop cs most = some (names, items) ↔
    ∃ width, 0 < width ∧ width ≤ most ∧ splitIn (cs.drop width) = some (names, items) ∧
      ∀ wider, width < wider → wider ≤ most → splitIn (cs.drop wider) = none := by
  induction most with
  | zero =>
    refine ⟨fun h => (Option.some_ne_none _ h.symm).elim, ?_⟩
    rintro ⟨width, hpos, hle, -⟩
    omega
  | succ most ih =>
    rw [splitLoop]
    cases hs : splitIn (cs.drop (most + 1)) with
    | some parts =>
      constructor
      · rintro ⟨⟩
        exact ⟨most + 1, by omega, Nat.le_refl _, hs, fun wider hw hm => by omega⟩
      · rintro ⟨width, -, hle, hsome, hmax⟩
        rcases Nat.lt_or_ge width (most + 1) with hlt | hge
        · rw [hmax (most + 1) hlt (Nat.le_refl _)] at hs
          cases hs
        · rw [show width = most + 1 by omega, hs] at hsome
          exact hsome
    | none =>
      rw [ih]
      constructor
      · rintro ⟨width, hpos, hle, hsome, hmax⟩
        refine ⟨width, hpos, by omega, hsome, fun wider hw hm => ?_⟩
        rcases Nat.lt_or_ge most wider with hlt | hge
        · rw [show wider = most + 1 by omega]
          exact hs
        · exact hmax wider hw hge
      · rintro ⟨width, hpos, hle, hsome, hmax⟩
        refine ⟨width, hpos, ?_, hsome, fun wider hw hm => hmax wider hw (by omega)⟩
        by_contra hgt
        rw [show width = most + 1 by omega, hs] at hsome
        cases hsome

private theorem blanks_take {width : Nat} (h : width ≤ (cs.takeWhile isBlank).length) :
    Blanks (cs.take width) := by
  intro c hc
  rw [← List.takeWhile_append_dropWhile (p := isBlank) (l := cs),
    List.take_append_of_le_length h] at hc
  exact blanks_takeWhile cs c (List.mem_of_mem_take hc)

private theorem splitLoop_of_tag {rest : List Char}
    (h : LoopTag names items (['f', 'o', 'r'] ++ rest)) :
    splitLoop rest (rest.takeWhile isBlank).length = some (names, items) := by
  obtain ⟨gap, behind, hn, hg, he, hfound, hwidest⟩ := h
  obtain rfl : rest = gap ++ behind := List.append_cancel_left he
  rw [List.takeWhile_append_of_pos hg, List.length_append]
  refine splitLoop_iff.mpr ⟨gap.length, List.length_pos_iff.mpr hn, by omega, ?_, ?_⟩
  · rw [List.drop_left]
    exact splitIn_iff.mpr hfound
  · -- A wider gap has some of the blanks behind this one.
    intro wider hw hm
    have hcut : wider = gap.length + (wider - gap.length) := by omega
    have hwidth : wider - gap.length ≤ (behind.takeWhile isBlank).length := by omega
    have hmore : behind.take (wider - gap.length) ≠ [] := by
      have hpos := (List.takeWhile_prefix isBlank (l := behind)).length_le
      rw [← List.length_pos_iff, List.length_take]
      omega
    rw [hcut, ← List.drop_drop, List.drop_left]
    exact splitIn_eq_none_iff.mpr
      (hwidest _ _ (List.take_append_drop _ behind).symm hmore (blanks_take hwidth))

private theorem tag_of_splitLoop {rest : List Char}
    (h : splitLoop rest (rest.takeWhile isBlank).length = some (names, items)) :
    LoopTag names items (['f', 'o', 'r'] ++ rest) := by
  obtain ⟨width, hpos, hle, hfound, hwidest⟩ := splitLoop_iff.mp h
  have hlength := (List.takeWhile_prefix isBlank (l := rest)).length_le
  have htake : (rest.take width).length = width := List.length_take_of_le (by omega)
  refine ⟨rest.take width, rest.drop width, ?_, blanks_take hle, ?_, splitIn_iff.mp hfound, ?_⟩
  · rw [← List.length_pos_iff, htake]
    exact hpos
  · rw [List.take_append_drop]
  · intro more after he hne hblank
    have hrest : rest = rest.take width ++ more ++ after := by
      rw [List.append_assoc, ← he, List.take_append_drop]
    have hwide : width + more.length ≤ (rest.takeWhile isBlank).length := by
      have hboth : Blanks (rest.take width ++ more) :=
        List.forall_mem_append.mpr ⟨blanks_take hle, hblank⟩
      rw [hrest, List.takeWhile_append_of_pos hboth, List.length_append, List.length_append, htake]
      omega
    have hafter : rest.drop (width + more.length) = after := by
      rw [← List.drop_drop, he, List.drop_left]
    have hnone := hwidest (width + more.length)
      (Nat.lt_add_of_pos_right (List.length_pos_iff.mpr hne)) hwide
    rw [hafter] at hnone
    exact splitIn_eq_none_iff.mp hnone

/-- How the header of a loop is read: the gap is tried from all of the blanks down. -/
private theorem loop_iff : LoopTag names items content ↔ ∃ rest, content = ['f', 'o', 'r'] ++ rest ∧
    splitLoop rest (rest.takeWhile isBlank).length = some (names, items) := by
  constructor
  · intro h
    obtain ⟨gap, rest, -, -, he, -⟩ := id h
    subst he
    exact ⟨gap ++ rest, rfl, splitLoop_of_tag h⟩
  · rintro ⟨rest, rfl, h⟩
    exact tag_of_splitLoop h

private theorem builtin?_eq_some {header : Header} (h : builtin? content = some header) :
    header.Form content := by
  rw [builtin?] at h
  cases hc : afterWord ['i', 'f'] content with
  | some condition =>
    rw [hc] at h
    cases h
    exact .choice (afterWord_iff.mp hc)
  | none =>
    rw [hc] at h
    dsimp only at h
    by_cases hp : ['f', 'o', 'r'].isPrefixOf content = true
    · rw [if_pos hp] at h
      obtain ⟨rest, rfl⟩ := List.isPrefixOf_iff_prefix.mp hp
      rw [List.drop_left' (by rfl)] at h
      cases hl : splitLoop rest (rest.takeWhile isBlank).length with
      | some parts =>
        rw [hl] at h
        cases h
        exact .loop (loop_iff.mpr ⟨rest, rfl, hl⟩)
      | none =>
        rw [hl] at h
        obtain ⟨target, ht, rfl⟩ := Option.map_eq_some_iff.mp h
        exact .insertion (afterWord_iff.mp ht)
    · rw [if_neg hp] at h
      obtain ⟨target, ht, rfl⟩ := Option.map_eq_some_iff.mp h
      exact .insertion (afterWord_iff.mp ht)

theorem builtin?_iff {header : Header} :
    builtin? content = some header ↔ header.Form content := by
  refine ⟨builtin?_eq_some, fun h => ?_⟩
  cases h with
  | choice h => rw [builtin?, afterWord_iff.mpr h]
  | loop h =>
    obtain ⟨rest, rfl, hsplit⟩ := loop_iff.mp h
    simp [builtin?, afterWord, hsplit]
  | insertion h =>
    have hword := afterWord_iff.mpr h
    obtain ⟨rest, rfl, -⟩ := h
    simp only [builtin?, hword]
    simp [afterWord]

theorem builtin?_eq_none_iff : builtin? content = none ↔ ∀ h : Header, ¬ h.Form content := by
  rw [Option.eq_none_iff_forall_ne_some]
  exact forall_congr' fun h => not_congr builtin?_iff

theorem builtin?_choice {condition : List Char} (h : WordForm ['i', 'f'] condition content) :
    builtin? content = some (.choice condition) :=
  builtin?_iff.mpr (.choice (wordForm_iff.mp h).1)

theorem builtin?_loop (h : LoopForm names items content) :
    builtin? content = some (.loop names items) :=
  builtin?_iff.mpr (.loop (loopForm_iff.mp h).1)

theorem builtin?_insertion {target : List Char}
    (h : WordForm ['i', 'n', 'c', 'l', 'u', 'd', 'e'] target content) :
    builtin? content = some (.insertion target) :=
  builtin?_iff.mpr (.insertion (wordForm_iff.mp h).1)

end Header

namespace Branch

variable {content : List Char}

theorem read?_iff {b : Branch} : read? content = some b ↔ b.Form content := by
  constructor
  · intro h
    rw [read?] at h
    cases hc : Header.afterWord ['e', 'l', 'i', 'f'] content with
    | some condition =>
      rw [hc] at h
      cases h
      exact .clause (Header.afterWord_iff.mp hc)
    | none =>
      rw [hc] at h
      dsimp only at h
      split at h
      · next hw =>
        cases h
        exact hw ▸ .otherwise
      · split at h
        · next hw =>
          cases h
          exact hw ▸ .ending
        · cases h
  · intro h
    cases h with
    | clause h => rw [read?, Header.afterWord_iff.mpr h]
    | otherwise => rfl
    | ending => rfl

theorem Form.head {b : Branch} (h : b.Form content) : content.head? = some 'e' := by
  cases h with
  | clause h =>
    obtain ⟨rest, rfl, -⟩ := h
    rfl
  | otherwise => rfl
  | ending => rfl

end Branch

theorem Header.not_form {content : List Char} (he : content.head? = some 'e') (h : Header) :
    ¬ h.Form content := by
  intro hform
  cases hform with
  | loop h =>
    obtain ⟨_, _, _, _, rfl, _⟩ := h
    cases he
  | _ h =>
    obtain ⟨_, rfl, _⟩ := h
    cases he

theorem Header.builtin?_branch {content : List Char} (he : content.head? = some 'e') :
    builtin? content = none :=
  builtin?_eq_none_iff.mpr (not_form he)

namespace Lexeme

private theorem first_blank {c : Char} (place : Nat) (cs : List Char) (hb : isBlank c = true) :
    first place c cs = (.stray, 1) := by
  have hne : ∀ d : Char, isBlank d = false → c ≠ d := by
    rintro d hd rfl
    simp [hb] at hd
  have hname : startsName c = false := by
    have hscore := hne '_' (by decide)
    rw [← Bool.not_eq_true, startsName_iff]
    simp only [isBlank] at hb
    grind
  have hdigit : c.isDigit = false := by
    have h₀ : '0'.toNat = 48 := rfl
    have h₉ : '9'.toNat = 57 := rfl
    rw [← Bool.not_eq_true, Char.isDigit_iff_toNat, h₀, h₉]
    simp only [isBlank] at hb
    grind
  have hmark : ¬ (c = '\x27' ∨ c = '\x22') :=
    not_or.mpr ⟨hne _ (by decide), hne _ (by decide)⟩
  have hall : ['(', ')', '[', ']', '\x7b', '\x7d', ',', ':', '.', '+', '-', '%', '*', '/', '<', '>',
      '=', '!'].all (fun d => !isBlank d) = true := by
    decide
  have hsigns := fun d hd => hne d (by simpa using List.all_eq_true.mp hall d hd)
  rw [first, hname, hdigit]
  simp only [Bool.false_eq_true, if_false, if_neg hmark]
  simp only [List.forall_mem_cons] at hsigns
  simp [sign, hsigns]

private theorem scan_blanks {cs : List Char} (hb : Blanks cs) :
    scan cs = [] ∨ ∃ place rest, scan cs = (.stray, place) :: rest := by
  have h : ∀ place, scanFrom place 0 cs = [] ∨
      ∃ place' rest, scanFrom place 0 cs = (.stray, place') :: rest := by
    induction cs with
    | nil => intro place; exact Or.inl rfl
    | cons c cs ih =>
      intro place
      rw [scanFrom]
      cases hg : isGap c with
      | true =>
        simpa using ih (fun d hd => hb d (List.mem_cons_of_mem _ hd)) (place + 1)
      | false =>
        rw [first_blank place cs (hb c List.mem_cons_self)]
        simp
  rcases h 0 with h | ⟨place, rest, h⟩
  · exact Or.inl (by rw [scan, h]; rfl)
  · exact Or.inr ⟨place, rest.foldr joinText [], by rw [scan, h]; rfl⟩

end Lexeme

theorem Formula.parse_blanks {cs : List Char} (hb : Blanks cs) (f : Formula) :
    Formula.parse (String.ofList cs) ≠ .ok f := by
  intro h
  rcases Lexeme.scan_blanks hb with hs | ⟨place, rest, hs⟩ <;>
    simp [Formula.parse, Expr.parse, String.toList_ofList, hs, Expr.ofLexemes, bind, Except.bind,
      pure, Except.pure, Expr.Reading.finish?, Expr.Reading.start, Expr.Reading.step,
      Expr.Reading.beginOperand, Expr.Reading.endEmpty] at h

theorem Targets.parse_blanks {cs : List Char} (hb : Blanks cs) (names : List String) :
    Targets.parse (String.ofList cs) ≠ .ok names := by
  intro h
  rcases Lexeme.scan_blanks hb with hs | ⟨place, rest, hs⟩ <;>
    simp [Targets.parse, String.toList_ofList, hs, Targets.ofLexemes] at h

end Stencil
