import Mathlib.Data.List.Chain
import Stencil.Proofs.Markup.Partition

/-! # Printed passages are found again -/

namespace Stencil

open Text

theorem not_prefix_of_blank {closing cs : List Char} {blank : Char}
    (hblank : isBlank blank = true) (hc : ∀ c ∈ closing, isBlank c = false)
    (h : ¬ closing <+: cs) (rest : List Char) : ¬ closing <+: cs ++ blank :: rest := by
  intro hp
  have hmem : blank ∉ closing := fun hm => by simp [hc blank hm] at hblank
  have hcs : cs ++ [blank] <+: cs ++ blank :: rest := ⟨rest, by simp⟩
  rcases List.prefix_or_prefix_of_prefix hp hcs with hshort | hlong
  · rcases List.prefix_concat_iff.mp hshort with he | hin
    · exact hmem (by simp [he])
    · exact h hin
  · exact hmem (hlong.subset (by simp))

def Unlike (a b : List Char) : Prop :=
  ¬ a <+: b ∧ ¬ b <+: a

private theorem Unlike.not_prefix {a b : List Char} (h : Unlike a b) (rest : List Char) :
    ¬ a <+: b ++ rest := by
  intro hp
  rcases List.prefix_or_prefix_of_prefix hp (List.prefix_append b rest) with hab | hba
  · exact h.1 hab
  · exact h.2 hba

namespace Pair

def print (p : Pair) (blank : Char) (content : List Char) : List Char :=
  p.opening ++ blank :: (content ++ blank :: p.closing)

/-- Contents that the delimiters can stand around: something without blanks at its ends and
without the closing delimiter. -/
structure Holds (p : Pair) (content : List Char) : Prop where
  front : Solid content
  back : Solid content.reverse
  free : ¬ p.closing <:+: content

private theorem print_append (p : Pair) (blank : Char) (content rest : List Char) :
    p.print blank content ++ rest =
      p.opening ++ blank :: (content ++ blank :: (p.closing ++ rest)) := by
  simp only [print, List.append_assoc, List.cons_append]

end Pair

namespace Enclosure

variable {closing content : List Char} {blank : Char}

private theorem closingEnd_append (h : closing ≠ []) (rest : List Char) :
    closingEnd closing (closing ++ rest) = some closing.length := by
  cases closing with
  | nil => exact absurd rfl h
  | cons c closing =>
    rw [List.cons_append, closingEnd, if_pos]
    exact List.isPrefixOf_iff_prefix.mpr (List.prefix_append _ rest)

/-- The closing delimiter behind a content and a blank is the first one. -/
private theorem closingEnd_content (hblank : isBlank blank = true)
    (hc : ∀ c ∈ closing, isBlank c = false) (h : ¬ closing <:+: content) (rest : List Char) :
    closingEnd closing (content ++ blank :: (closing ++ rest)) =
      some (content.length + 1 + closing.length) := by
  have hne : closing ≠ [] := fun he => h (he ▸ List.nil_infix)
  induction content with
  | nil =>
    have hno := not_prefix_of_blank hblank hc (fun hp => h hp.isInfix) (closing ++ rest)
    rw [List.nil_append, closingEnd, if_neg (by simpa using hno), closingEnd_append hne]
    simp [Nat.add_comm]
  | cons c content ih =>
    have hno := not_prefix_of_blank hblank hc (fun hp => h hp.isInfix) (closing ++ rest)
    have hrest : ¬ closing <:+: content := fun hi => h (List.infix_cons hi)
    rw [List.cons_append] at hno ⊢
    rw [closingEnd, if_neg (by simpa using hno), ih hrest]
    simp only [Option.map_some, List.length_cons]
    congr 1
    omega

private theorem marginEnd_content (hblank : isBlank blank = true)
    (hc : ∀ c ∈ closing, isBlank c = false) (hn : content ≠ [])
    (hlast : ∀ c ∈ content.getLast?, isBlank c = false) (h : ¬ closing <:+: content)
    (rest : List Char) :
    marginEnd closing (content ++ blank :: rest) (blanks (content ++ blank :: rest)) = none := by
  cases hm : marginEnd closing (content ++ blank :: rest)
      (blanks (content ++ blank :: rest)) with
  | none => rfl
  | some n =>
    obtain ⟨trail, after, htrail, hcs, -⟩ := marginEnd_blanks hm
    -- The margin would have to go over the last character, which is no blank.
    have hinside : trail <+: content := by
      have hfront : trail <+: content ++ blank :: rest := ⟨_, hcs.symm⟩
      rcases List.prefix_or_prefix_of_prefix hfront (List.prefix_append content _) with hp | hp
      · exact hp
      · have hmem : content.getLast hn ∈ trail := hp.subset (List.getLast_mem hn)
        have hblank := htrail _ hmem
        rw [hlast _ (List.getLast?_eq_some_getLast hn)] at hblank
        cases hblank
    obtain ⟨inner, rfl⟩ := hinside
    rw [List.append_assoc, List.append_cancel_left_eq] at hcs
    have hinner : ¬ closing <+: inner := fun hp =>
      h (hp.isInfix.trans (List.suffix_append trail inner).isInfix)
    exact absurd ⟨after, hcs.symm⟩ (not_prefix_of_blank hblank hc hinner rest)

theorem solid_append {closing : List Char} (hc : ∀ c ∈ closing, isBlank c = false)
    (hne : closing ≠ []) (rest : List Char) : Solid (closing ++ rest) := by
  cases closing with
  | nil => exact absurd rfl hne
  | cons c closing => exact hc c List.mem_cons_self

private theorem blanks_cons (hblank : isBlank blank = true) {cs : List Char} (hs : Solid cs) :
    blanks (blank :: cs) = 1 := by
  have hgap : Blanks [blank] := fun c hm => List.mem_singleton.mp hm ▸ hblank
  rw [blanks, ← List.singleton_append, takeWhile_blanks hgap hs, List.length_singleton]

private theorem contentEnd_content (hblank : isBlank blank = true)
    (hc : ∀ c ∈ closing, isBlank c = false)
    (hlast : ∀ c ∈ content.getLast?, isBlank c = false) (h : ¬ closing <:+: content)
    (rest : List Char) :
    contentEnd closing (content ++ blank :: (closing ++ rest)) =
      some (content, content.length + 1 + closing.length) := by
  have hne : closing ≠ [] := fun he => h (he ▸ List.nil_infix)
  induction content with
  | nil =>
    have hmargin : marginEnd closing (blank :: (closing ++ rest)) 1 =
        some (1 + closing.length) := by
      rw [marginEnd, if_pos]
      exact List.isPrefixOf_iff_prefix.mpr (List.prefix_append closing rest)
    rw [List.nil_append, contentEnd_cons, blanks_cons hblank (solid_append hc hne rest), hmargin]
    simp
  | cons c content ih =>
    have hrest : ¬ closing <:+: content := fun hi => h (List.infix_cons hi)
    have hlast' : ∀ d ∈ content.getLast?, isBlank d = false := by
      intro d hd
      have hd' : d ∈ (c :: content).getLast? := by
        rw [List.getLast?_cons, hd]
        rfl
      exact hlast d hd'
    have hnone := marginEnd_content hblank hc (List.cons_ne_nil c content) hlast h
      (closing ++ rest)
    rw [List.cons_append] at hnone ⊢
    rw [contentEnd_cons, hnone, ih hlast' hrest]
    simp only [Option.map_some, List.length_cons]
    congr 2
    omega

variable {p q : Pair}

private theorem comment?_print (h : Unlike p.opening q.opening) (rest : List Char) :
    comment? p (q.print blank content ++ rest) = none := by
  have hno := h.not_prefix (blank :: (content ++ blank :: (q.closing ++ rest)))
  rw [Pair.print_append, comment?, if_neg (by simpa using hno)]

private theorem tag?_print (kind : TagKind) (h : Unlike p.opening q.opening) (rest : List Char) :
    tag? kind p (q.print blank content ++ rest) = none := by
  have hno := h.not_prefix (blank :: (content ++ blank :: (q.closing ++ rest)))
  rw [Pair.print_append, tag?, if_neg (by simpa using hno)]

end Enclosure

namespace Pair.Holds

variable {p : Pair} {blank : Char} {content : List Char}

private theorem last (h : p.Holds content) : ∀ c ∈ content.getLast?, isBlank c = false := by
  rw [← List.head?_reverse]
  exact h.back.head

private theorem comment? (h : p.Holds content) (hblank : isBlank blank = true)
    (hc : ∀ c ∈ p.closing, isBlank c = false) (rest : List Char) :
    Enclosure.comment? p (p.print blank content ++ rest) =
      some (.comment (p.print blank content).length) := by
  have hfree : ¬ p.closing <:+: blank :: content := by
    rw [List.infix_cons_iff, not_or]
    have hnil : ¬ p.closing <+: [] := fun hp => h.free (hp.isInfix.trans List.nil_infix)
    exact ⟨not_prefix_of_blank hblank hc hnil content, h.free⟩
  have hend := Enclosure.closingEnd_content hblank hc hfree rest
  rw [print_append, Enclosure.comment?, if_pos (by simp), List.drop_left, ← List.cons_append, hend]
  simp only [print, Option.map_some, List.length_append, List.length_cons]
  congr 2
  omega

private theorem tag? (h : p.Holds content) (kind : TagKind) (hblank : isBlank blank = true)
    (hc : ∀ c ∈ p.closing, isBlank c = false) (rest : List Char) :
    Enclosure.tag? kind p (p.print blank content ++ rest) =
      some (.tag kind content (p.print blank content).length) := by
  have hwidth := Enclosure.blanks_cons hblank (h.front.append (blank :: (p.closing ++ rest)))
  have hend := Enclosure.contentEnd_content hblank hc h.last h.free rest
  have hbody : Enclosure.bodyEnd p.closing (blank :: (content ++ blank :: (p.closing ++ rest))) 1 =
      some (content, 1 + (content.length + 1 + p.closing.length)) := by
    rw [Enclosure.bodyEnd, List.drop_one, List.tail_cons, hend]
  rw [print_append, Enclosure.tag?, if_pos (by simp), List.drop_left]
  simp only [hwidth, hbody, print, Option.map_some, List.length_append, List.length_cons]
  congr 2
  omega

end Pair.Holds

namespace Delimiters

def openings (d : Delimiters) : List (List Char) :=
  [d.comment.opening, d.expression.opening, d.block.opening]

def closings (d : Delimiters) : List (List Char) :=
  [d.comment.closing, d.expression.closing, d.block.closing]

/-- Delimiters that are kept apart: there are no blanks in them and none is empty, and no opening
one begins another. -/
structure Apart (d : Delimiters) : Prop where
  solid : ∀ delimiter ∈ d.openings ++ d.closings,
    delimiter ≠ [] ∧ ∀ c ∈ delimiter, isBlank c = false
  openings : d.openings.Pairwise Unlike

theorem standard_apart : standard.Apart := by
  constructor <;> simp [Delimiters.openings, closings, Unlike, isBlank, standard]

namespace Apart

variable {d : Delimiters} {blank : Char} {content : List Char}

private theorem closing_comment (h : d.Apart) : ∀ c ∈ d.comment.closing, isBlank c = false :=
  (h.solid _ (by simp [closings])).2

theorem closing_pair (h : d.Apart) (kind : TagKind) :
    ∀ c ∈ (d.pair kind).closing, isBlank c = false :=
  (h.solid _ (by cases kind <;> simp [pair, closings])).2

private theorem enclosure?_comment (h : d.Apart) (hblank : isBlank blank = true)
    (hc : d.comment.Holds content) (rest : List Char) :
    d.enclosure? (d.comment.print blank content ++ rest) =
      some (.comment (d.comment.print blank content).length) := by
  rw [enclosure?, hc.comment? hblank h.closing_comment, Option.some_or]

private theorem openings_unlike (h : d.Apart) :
    (∀ kind, Unlike d.comment.opening (d.pair kind).opening) ∧
      Unlike d.expression.opening d.block.opening := by
  obtain ⟨⟨hexpression, hblock⟩, hblocks⟩ : (Unlike d.comment.opening d.expression.opening ∧
      Unlike d.comment.opening d.block.opening) ∧
        Unlike d.expression.opening d.block.opening := by
    simpa [Delimiters.openings] using h.openings
  refine ⟨fun kind => ?_, hblocks⟩
  cases kind with
  | expression => exact hexpression
  | block => exact hblock

theorem enclosure?_tag (h : d.Apart) (hblank : isBlank blank = true) (kind : TagKind)
    (hc : (d.pair kind).Holds content) (rest : List Char) :
    d.enclosure? ((d.pair kind).print blank content ++ rest) =
      some (.tag kind content ((d.pair kind).print blank content).length) := by
  have hfound := hc.tag? kind hblank (h.closing_pair kind) rest
  obtain ⟨hcomment, hblocks⟩ := h.openings_unlike
  rw [enclosure?, Enclosure.comment?_print (hcomment kind), Option.none_or]
  cases kind with
  | expression =>
    rw [pair] at hfound ⊢
    rw [hfound, Option.some_or]
  | block =>
    rw [pair] at hfound ⊢
    rw [Enclosure.tag?_print .expression hblocks, Option.none_or, hfound]

end Apart

private theorem enclosure?_opening {d : Delimiters} {cs : List Char} {e : Enclosure}
    (h : d.enclosure? cs = some e) : ∃ o ∈ d.openings, o <+: cs := by
  obtain ⟨source, rest, rfl, hform⟩ := enclosure?_form h
  cases e with
  | comment n =>
    obtain ⟨-, inner, rfl⟩ := hform
    exact ⟨d.comment.opening, by simp [openings], by simp⟩
  | tag kind content n =>
    obtain ⟨-, lead, trail, -, -, rfl⟩ := hform
    exact ⟨(d.pair kind).opening, by cases kind <;> simp [pair, openings], by simp⟩

/-- A text with something behind it, in which nothing that is enclosed begins. -/
def Literal (d : Delimiters) (content rest : List Char) : Prop :=
  ∀ before after, content = before ++ after → after ≠ [] → d.enclosure? (after ++ rest) = none

private theorem Apart.enclosure?_text {d : Delimiters} (h : d.Apart) {c : Char}
    (hc : ∀ o ∈ d.openings, c ∉ o.head?) (rest : List Char) : d.enclosure? (c :: rest) = none := by
  cases he : d.enclosure? (c :: rest) with
  | none => rfl
  | some e =>
    obtain ⟨o, ho, hp⟩ := enclosure?_opening he
    have hne := (h.solid o (List.mem_append_left _ ho)).1
    rcases List.prefix_cons_iff.mp hp with hnil | ⟨o', rfl, -⟩
    · exact absurd hnil hne
    · exact absurd rfl (hc _ ho)

theorem Apart.literal {d : Delimiters} (h : d.Apart) {content : List Char}
    (hc : ∀ c ∈ content, ∀ o ∈ d.openings, c ∉ o.head?) (rest : List Char) :
    d.Literal content rest := by
  rintro before after rfl hne
  cases after with
  | nil => exact absurd rfl hne
  | cons c after => exact h.enclosure?_text (hc c (by simp)) (after ++ rest)

end Delimiters

inductive Passage where
  | text (content : List Char)
  | comment (content : List Char)
  | tag (kind : TagKind) (content : List Char)

namespace Passage

/-- A passage as it stands in a source, with one blank on either side of a content. -/
def print (d : Delimiters) (blank : Char) : Passage → List Char
  | text content => content
  | comment content => d.comment.print blank content
  | tag kind content => (d.pair kind).print blank content

def printAll (d : Delimiters) (blank : Char) (ps : List Passage) : List Char :=
  ps.flatMap (print d blank)

/-- What delimiters leave to a passage: a text has no character that begins an opening one. -/
def Fits (d : Delimiters) : Passage → Prop
  | text content => content ≠ [] ∧ ∀ c ∈ content, ∀ o ∈ d.openings, c ∉ o.head?
  | comment content => d.comment.Holds content
  | tag kind content => (d.pair kind).Holds content

def IsText : Passage → Prop
  | text _ => True
  | _ => False

def token? : Passage → Option (TokenKind × String)
  | text content => some (.text, String.ofList content)
  | comment _ => none
  | tag kind content => some (kind.tokenKind, String.ofList content)

private def piece (d : Delimiters) (blank : Char) : Passage → Piece
  | text content => .text content
  | comment content => .hidden (d.comment.print blank content)
  | tag kind content => .tag kind content ((d.pair kind).print blank content)

end Passage

namespace Piece

variable {d : Delimiters}

private theorem cutFrom_skip (before source rest : List Char) :
    cutFrom d source.length before (source ++ rest) = cutFrom d 0 before rest := by
  induction source with
  | nil => rfl
  | cons c source ih => exact ih

theorem cutFrom_literal {content rest : List Char} (h : d.Literal content rest)
    (before : List Char) :
    cutFrom d 0 before (content ++ rest) = cutFrom d 0 (content.reverse ++ before) rest := by
  induction content generalizing before with
  | nil => rfl
  | cons c content ih =>
    have hnone := h [] (c :: content) rfl (List.cons_ne_nil c content)
    have hmore : d.Literal content rest :=
      fun front back he => h (c :: front) back (congrArg (c :: ·) he)
    rw [List.cons_append] at hnone ⊢
    rw [cutFrom, hnone, List.reverse_cons, List.append_assoc]
    exact ih hmore (c :: before)

theorem cutFrom_enclosure {e : Enclosure} {source rest : List Char} (hn : source ≠ [])
    (he : d.enclosure? (source ++ rest) = some e) (hl : e.length = source.length)
    (before : List Char) :
    cutFrom d 0 before (source ++ rest) =
      flush before (ofEnclosure e source :: cutFrom d 0 [] rest) := by
  cases source with
  | nil => exact absurd rfl hn
  | cons c source =>
    rw [List.cons_append] at he ⊢
    simp only [cutFrom, he, hl, List.length_cons, List.take_left, cutFrom_skip]

end Piece

namespace Passage

variable {d : Delimiters} {blank : Char}

private theorem cutFrom_print (h : d.Apart) (hblank : isBlank blank = true) {p : Passage}
    (hp : p.Fits d) (ht : ¬ p.IsText) (before rest : List Char) :
    Piece.cutFrom d 0 before (p.print d blank ++ rest) =
      Piece.flush before (p.piece d blank :: Piece.cutFrom d 0 [] rest) := by
  have hprint : ∀ (q : Pair) (content : List Char), q.print blank content ≠ [] := by
    intro q content
    simp [Pair.print]
  cases p with
  | text content => exact absurd trivial ht
  | comment content =>
    exact Piece.cutFrom_enclosure (hprint _ _) (h.enclosure?_comment hblank hp rest) rfl before
  | tag kind content =>
    cases content with
    | nil => exact hp.front.elim
    | cons c content =>
      exact Piece.cutFrom_enclosure (hprint _ _) (h.enclosure?_tag hblank kind hp rest) rfl before

/-- Printed passages are cut where they meet. Text that is already read ends there only if no text
goes on with it. -/
private theorem cutFrom_printAll (h : d.Apart) (hblank : isBlank blank = true) {ps : List Passage}
    (hps : ∀ p ∈ ps, p.Fits d) (hjoin : ps.IsChain fun p q => p.IsText → ¬ q.IsText)
    {before : List Char} (hb : before = [] ∨ ∀ p ∈ ps.head?, ¬ p.IsText) :
    Piece.cutFrom d 0 before (printAll d blank ps) =
      Piece.flush before (ps.map (piece d blank)) := by
  induction ps generalizing before with
  | nil => rfl
  | cons p ps ih =>
    obtain ⟨hp, hfits⟩ := List.forall_mem_cons.mp hps
    obtain ⟨hnext, hchain⟩ := List.isChain_cons.mp hjoin
    rw [printAll, List.flatMap_cons, ← printAll, List.map_cons]
    by_cases ht : p.IsText
    · cases p with
      | text content =>
        have hbefore : before = [] := hb.resolve_right fun hno => hno _ rfl ht
        subst hbefore
        have hend : content.reverse = [] ∨ ∀ q ∈ ps.head?, ¬ q.IsText :=
          Or.inr fun q hq => hnext q hq ht
        have hne : content.reverse.isEmpty = false := by simpa using hp.1
        rw [print, Piece.cutFrom_literal (h.literal hp.2 _), List.append_nil, ih hfits hchain hend,
          Piece.flush, hne, List.reverse_reverse]
        rfl
      | comment content => exact ht.elim
      | tag kind content => exact ht.elim
    · rw [cutFrom_print h hblank hp ht, ih hfits hchain (Or.inl rfl)]
      rfl

private theorem ofPiecesAt_piece (ps : List Passage) (line start : Nat) :
    (Token.ofPiecesAt line start (ps.map (piece d blank))).map (fun t => (t.kind, t.content)) =
      ps.filterMap token? := by
  induction ps generalizing line start with
  | nil => rfl
  | cons p ps ih =>
    cases p with
    | text content => exact congrArg _ (ih _ _)
    | comment content => exact ih _ _
    | tag kind content => exact congrArg _ (ih _ _)

end Passage

/-- The tokens of printed passages are the passages but for comments, in order, with their kinds
and contents. So they do not depend on the delimiters. -/
theorem Token.scan_print {d : Delimiters} (h : d.Apart) {blank : Char}
    (hblank : isBlank blank = true) {ps : List Passage} (hps : ∀ p ∈ ps, p.Fits d)
    (hjoin : ps.IsChain fun p q => p.IsText → ¬ q.IsText) :
    (scan d (String.ofList (Passage.printAll d blank ps))).map (fun t => (t.kind, t.content)) =
        ps.filterMap Passage.token? ∧
      ∀ d' : Delimiters, d'.Apart → (∀ p ∈ ps, p.Fits d') →
        (scan d' (String.ofList (Passage.printAll d' blank ps))).map
            (fun t => (t.kind, t.content)) =
          (scan d (String.ofList (Passage.printAll d blank ps))).map
            (fun t => (t.kind, t.content)) := by
  have hscan : ∀ d : Delimiters, d.Apart → (∀ p ∈ ps, p.Fits d) →
      (scan d (String.ofList (Passage.printAll d blank ps))).map (fun t => (t.kind, t.content)) =
        ps.filterMap Passage.token? := by
    intro d h hps
    have hcut := Passage.cutFrom_printAll h hblank hps hjoin (Or.inl rfl)
    rw [scan, String.toList_ofList, Piece.cut, hcut]
    exact Passage.ofPiecesAt_piece ps 1 0
  refine ⟨hscan d h hps, fun d' h' hps' => ?_⟩
  rw [hscan d h hps, hscan d' h' hps']

theorem Token.scan_angle_tags :
    let angle : Delimiters :=
      ⟨⟨"<#".toList, "#>".toList⟩, ⟨"[[".toList, "]]".toList⟩, ⟨"<%".toList, "%>".toList⟩⟩
    let ps : List Passage := [.text "a]".toList, .comment "[[ %>".toList, .text ">".toList,
      .tag .expression "b] %>".toList, .tag .block "]]\n<#".toList]
    (angle.Apart ∧ Delimiters.standard.Apart ∧ isBlank ' ' = true ∧
      (∀ p ∈ ps, p.Fits angle ∧ p.Fits .standard) ∧ ps.IsChain fun p q => p.IsText → ¬ q.IsText) ∧
    ((scan angle "a]<# [[ %> #>>[[ b] %> ]]<% ]]\n<# %>").map (fun t => (t.kind, t.content)) =
      [(.text, "a]"), (.text, ">"), (.expression, "b] %>"), (.block, "]]\n<#")] ∧
    (scan .standard (String.ofList (Passage.printAll .standard ' ' ps))).map
        (fun t => (t.kind, t.content)) =
      (scan angle (String.ofList (Passage.printAll angle ' ' ps))).map
        (fun t => (t.kind, t.content))) := by
  intro angle ps
  have hangle : angle.Apart := by
    constructor <;> simp [Delimiters.openings, Delimiters.closings, Unlike, isBlank, angle]
  have hstandard : Delimiters.standard.Apart := by
    constructor <;>
      simp [Delimiters.openings, Delimiters.closings, Unlike, isBlank, Delimiters.standard]
  have hblank : isBlank ' ' = true := by decide
  have hfits : ∀ p ∈ ps, p.Fits angle ∧ p.Fits .standard := by
    simp only [ps, List.forall_mem_cons, Passage.Fits]
    refine ⟨⟨?_, ?_⟩, ⟨⟨rfl, rfl, by decide⟩, rfl, rfl, by decide⟩, ⟨?_, ?_⟩,
      ⟨⟨rfl, rfl, by decide⟩, rfl, rfl, by decide⟩, ⟨⟨rfl, rfl, by decide⟩, rfl, rfl, by decide⟩,
      fun _ h => (List.not_mem_nil h).elim⟩
    all_goals simp [Delimiters.openings, angle, Delimiters.standard]
  have hjoin : ps.IsChain fun p q => p.IsText → ¬ q.IsText := by
    simp [ps, Passage.IsText]
  obtain ⟨htokens, hsame⟩ := scan_print hangle hblank (fun p hp => (hfits p hp).1) hjoin
  exact ⟨⟨hangle, hstandard, hblank, hfits, hjoin⟩, htokens,
    hsame _ hstandard fun p hp => (hfits p hp).2⟩

end Stencil
