import Stencil.Proofs.Markup.Fastening

/-!
# Tight tags

A tag goes up to the first closing delimiter behind its opening one, and all blanks inside belong to
its margins. Nothing is enclosed inside of a text, so a text that is cut again stays in one piece.
-/

namespace Stencil

open Text

namespace Delimiters

variable {d : Delimiters} {cs : List Char}

def pairs (d : Delimiters) : List Pair :=
  [d.comment, d.expression, d.block]

private theorem opening_mem {p : Pair} (hp : p ∈ d.pairs) : p.opening ∈ d.openings := by
  simp only [pairs, List.mem_cons, List.not_mem_nil, or_false] at hp
  rcases hp with rfl | rfl | rfl <;> simp [openings]

private theorem enclosure?_eq_none : d.enclosure? cs = none ↔ ∀ p ∈ d.pairs, ¬ p.Begins cs := by
  simp [enclosure?, pairs, Enclosure.comment?_eq_none, Enclosure.tag?_eq_none]

private theorem begins_of_enclosure? {e : Enclosure} (h : d.enclosure? cs = some e) :
    ∃ p ∈ d.pairs, p.Begins cs := by
  by_contra hno
  have hnone := enclosure?_eq_none.mpr fun p hp hbegins => hno ⟨p, hp, hbegins⟩
  rw [hnone] at h
  cases h

private theorem enclosure?_eq_none_of_append {more : List Char}
    (h : d.enclosure? (cs ++ more) = none) :
    d.enclosure? cs = none :=
  enclosure?_eq_none.mpr fun p hp hbegins => enclosure?_eq_none.mp h p hp (hbegins.append more)

private theorem enclosure?_tag_eq {kind : TagKind} {content : List Char} {n : Nat}
    (h : d.enclosure? cs = some (.tag kind content n)) :
    Enclosure.tag? kind (d.pair kind) cs = some (.tag kind content n) := by
  simp only [enclosure?, Option.or_eq_some_iff] at h
  rcases h with hcomment | ⟨-, htag | ⟨-, htag⟩⟩
  · obtain ⟨_, _, _, he⟩ := Enclosure.comment?_form hcomment
    cases he
  · obtain ⟨_, _, _, _, _, he⟩ := Enclosure.tag?_form htag
    cases he
    exact htag
  · obtain ⟨_, _, _, _, _, he⟩ := Enclosure.tag?_form htag
    cases he
    exact htag

/-- No pair of delimiters has both of its parts in a text. -/
def Clear (d : Delimiters) (content : List Char) : Prop :=
  ∀ p ∈ d.pairs, ∀ before inner after,
    content ≠ before ++ (p.opening ++ (inner ++ (p.closing ++ after)))

structure Firm (d : Delimiters) : Prop where
  filled : ∀ delimiter ∈ d.openings ++ d.closings, delimiter ≠ []
  solid : ∀ delimiter ∈ d.closings, ∀ c ∈ delimiter, isBlank c = false

theorem standard_firm : Delimiters.standard.Firm := by
  constructor <;> simp [openings, closings, standard, isBlank]

private theorem Firm.length_pos (hd : d.Firm) {e : Enclosure} {source : List Char}
    (h : e.Form d source) : 0 < e.length := by
  have hopening : ∀ o ∈ d.openings, ∀ rest, 0 < (o ++ rest).length := by
    intro o ho rest
    have hpos := List.length_pos_iff.mpr (hd.filled o (List.mem_append_left _ ho))
    rw [List.length_append]
    omega
  cases e with
  | comment n =>
    obtain ⟨rfl, inner, rfl⟩ := h
    exact hopening _ (by simp [openings]) _
  | tag kind content n =>
    obtain ⟨rfl, lead, trail, -, -, rfl⟩ := h
    exact hopening _ (by cases kind <;> simp [pair, openings]) _

namespace Literal

variable {content rest : List Char}

private theorem nil (d : Delimiters) (rest : List Char) : d.Literal [] rest :=
  fun _ _ he hne => absurd (List.append_eq_nil_iff.mp he.symm).2 hne

private theorem alone (h : d.Literal content rest) : d.Literal content [] := by
  intro before after he hne
  rw [List.append_nil]
  exact enclosure?_eq_none_of_append (h before after he hne)

private theorem snoc {c : Char} (h : d.Literal content (c :: rest))
    (hc : d.enclosure? (c :: rest) = none) : d.Literal (content ++ [c]) rest := by
  intro before after he hne
  rcases List.append_eq_append_iff.mp he with ⟨more, rfl, hlast⟩ | ⟨more, rfl, rfl⟩
  · cases more with
    | nil =>
      rw [List.nil_append] at hlast
      rw [← hlast]
      exact hc
    | cons d more =>
      have hnil : more = [] ∧ after = [] := by simpa using (List.cons.inj hlast).2
      exact absurd hnil.2 hne
  · cases more with
    | nil => exact hc
    | cons d more =>
      rw [List.append_assoc]
      exact h before (d :: more) rfl (by simp)

end Literal

private theorem literal_iff_clear (hd : d.Firm) {content : List Char} :
    d.Literal content [] ↔ d.Clear content := by
  constructor
  · rintro h p hp before inner after rfl
    have hopening : p.opening ≠ [] :=
      hd.filled _ (List.mem_append_left _ (opening_mem hp))
    have hnone := h before _ rfl (by simp [hopening])
    exact enclosure?_eq_none.mp hnone p hp ⟨inner, after, by simp⟩
  · rintro h before after rfl -
    rw [List.append_nil]
    apply enclosure?_eq_none.mpr
    rintro p hp ⟨inner, rest, rfl⟩
    exact h p hp before inner rest rfl

end Delimiters

namespace Piece

/-- Pieces as they are found: where a text goes on nothing is enclosed, and every other piece is
what is enclosed at its place. -/
inductive Found (d : Delimiters) : List Piece → Prop where
  | nil : Found d []
  | text {content ps} : content ≠ [] → d.Literal content (sources ps) → Found d ps →
      Found d (text content :: ps)
  | enclosure {e source ps} : d.enclosure? (source ++ sources ps) = some e →
      e.length = source.length → Found d ps → Found d (ofEnclosure e source :: ps)

namespace Found

variable {d : Delimiters} {ps : List Piece}

private theorem flush {before : List Char} (hb : d.Literal before.reverse (sources ps))
    (h : Found d ps) : Found d (Piece.flush before ps) := by
  cases before with
  | nil => exact h
  | cons c before => exact .text (by simp) hb h

private theorem behind {front : List Piece} (h : Found d (front ++ ps)) : Found d ps := by
  induction front with
  | nil => exact h
  | cons p front ih =>
    cases h with
    | text _ _ h => exact ih h
    | enclosure _ _ h => exact ih h

private theorem literal {content : List Char} (h : Found d (.text content :: ps)) :
    content ≠ [] ∧ d.Literal content (sources ps) := by
  generalize hp : Piece.text content = p at h
  cases h with
  | text hne hliteral _ =>
    cases hp
    exact ⟨hne, hliteral⟩
  | @enclosure e source _ _ _ _ =>
    cases e with
    | comment n => cases hp
    | tag kind inner n => cases inner <;> cases hp

private theorem enclosed {p : Piece} (h : Found d (p :: ps)) : (∃ content, p = .text content) ∨
    ∃ e, d.enclosure? (p.source ++ sources ps) = some e ∧ e.length = p.source.length := by
  cases h with
  | text => exact .inl ⟨_, rfl⟩
  | @enclosure e source _ he hl _ =>
    refine .inr ⟨e, ?_⟩
    rw [ofEnclosure_source]
    exact ⟨he, hl⟩

private theorem tag {kind : TagKind} {content source : List Char}
    (h : Found d (.tag kind content source :: ps)) :
    content ≠ [] ∧
      d.enclosure? (source ++ sources ps) = some (.tag kind content source.length) := by
  generalize hp : Piece.tag kind content source = p at h
  cases h with
  | text => cases hp
  | @enclosure e source' _ he hl _ =>
    cases e with
    | comment n => cases hp
    | tag kind' inner n =>
      cases inner with
      | nil => cases hp
      | cons c inner =>
        cases hp
        have hn : n = source.length := hl
        exact ⟨by simp, hn ▸ he⟩

end Found

private theorem cutFrom_found {d : Delimiters} (hd : d.Firm) {skip : Nat} {before cs : List Char}
    (h : d.Literal before.reverse (cs.drop skip)) : Found d (cutFrom d skip before cs) := by
  induction cs generalizing skip before with
  | nil =>
    have hn : cutFrom d skip before [] = flush before [] := by cases skip <;> rfl
    rw [hn]
    rw [List.drop_nil] at h
    exact Found.flush h .nil
  | cons c cs ih =>
    cases skip with
    | succ skip => exact ih h
    | zero =>
      rw [cutFrom]
      cases he : d.enclosure? (c :: cs) with
      | none =>
        -- The character joins the text before it, in which still nothing is enclosed.
        apply ih
        rw [List.reverse_cons]
        exact h.snoc he
      | some e =>
        dsimp only
        obtain ⟨source, rest, hcs, hform⟩ := Delimiters.enclosure?_form he
        have hlen : e.length = source.length := by cases e <;> exact hform.1
        have hpos := hd.length_pos hform
        cases hl : e.length with
        | zero => omega
        | succ n =>
          have hrest : c :: cs.take n ++ sources (cutFrom d n [] cs) = c :: cs := by
            rw [(cutFrom_spec d n [] cs).2, List.reverse_nil, List.nil_append, List.cons_append,
              List.take_append_drop]
          have hsource : source.length ≤ (c :: cs).length := by simp [hcs]
          refine Found.flush ?_ (.enclosure ?_ ?_ (ih (.nil d _)))
          · rw [sources_cons, ofEnclosure_source, hrest]
            exact h
          · rw [hrest]
            exact he
          · simp only [List.length_cons, List.length_take] at hsource ⊢
            omega

private theorem cut_found {d : Delimiters} (hd : d.Firm) (source : List Char) :
    Found d (cut d source) :=
  cutFrom_found hd (.nil d _)

private theorem cut_literal {d : Delimiters} {content : List Char} (hne : content ≠ [])
    (h : d.Literal content []) : cut d content = [text content] := by
  have hall := cutFrom_literal h []
  have hend : content.reverse.isEmpty = false := by simpa using hne
  rw [List.append_nil, List.append_nil] at hall
  rw [cut, hall, cutFrom, flush, hend, List.reverse_reverse]
  rfl

private theorem at_place {ps : List Piece} {before after : List Char}
    (h : sources ps = before ++ after)
    (hne : after ≠ []) : ∃ front p back inner tail, ps = front ++ p :: back ∧
      before = sources front ++ inner ∧ p.source = inner ++ tail ∧ tail ≠ [] := by
  induction ps generalizing before with
  | nil =>
    have hnil : before = [] ∧ after = [] := List.append_eq_nil_iff.mp h.symm
    exact absurd hnil.2 hne
  | cons q ps ih =>
    have hnext : ∀ more, sources ps = more ++ after → before = q.source ++ more →
        ∃ front p back inner tail, q :: ps = front ++ p :: back ∧
          before = sources front ++ inner ∧ p.source = inner ++ tail ∧ tail ≠ [] := by
      rintro more hmore rfl
      obtain ⟨front, p, back, inner, tail, rfl, rfl, hp, htail⟩ := ih hmore
      exact ⟨q :: front, p, back, inner, tail, rfl, by simp, hp, htail⟩
    rw [sources_cons] at h
    rcases List.append_eq_append_iff.mp h with ⟨more, hbefore, hmore⟩ | ⟨more, hq, hafter⟩
    · exact hnext more hmore hbefore
    · cases more with
      | nil => exact hnext [] hafter.symm (by simpa using hq.symm)
      | cons c more => exact ⟨[], q, ps, before, c :: more, rfl, rfl, hq, by simp⟩

end Piece

namespace Token

def Reads (t : Token) : Piece → Prop
  | .text content => t.kind = .text ∧ t.content.toList = content
  | .hidden _ => False
  | .tag kind content _ => t.kind = kind.tokenKind ∧ t.content.toList = content

private theorem mem_ofPiecesAt {t : Token} {line start : Nat} {ps : List Piece}
    (h : t ∈ ofPiecesAt line start ps) :
    ∃ front p back, ps = front ++ p :: back ∧ t.Reads p ∧
      t.line = line + newlines (Piece.sources front) ∧
      t.start = start + byteLength (Piece.sources front) ∧
      t.stop = t.start + byteLength p.source := by
  induction ps generalizing line start with
  | nil => cases h
  | cons q ps ih =>
    have hlater : t ∈ ofPiecesAt (line + newlines q.source) (start + byteLength q.source) ps →
        ∃ front p back, q :: ps = front ++ p :: back ∧ t.Reads p ∧
          t.line = line + newlines (Piece.sources front) ∧
          t.start = start + byteLength (Piece.sources front) ∧
          t.stop = t.start + byteLength p.source := by
      intro hm
      obtain ⟨front, p, back, rfl, hreads, hline, hstart, hstop⟩ := ih hm
      refine ⟨q :: front, p, back, rfl, hreads, ?_, ?_, hstop⟩
      · rw [hline, Piece.sources_cons, newlines_append, Nat.add_assoc]
      · rw [hstart, Piece.sources_cons, byteLength_append, Nat.add_assoc]
    cases q with
    | text content =>
      rcases List.mem_cons.mp h with rfl | hm
      · exact ⟨[], .text content, ps, rfl, ⟨rfl, by simp⟩, rfl, rfl, rfl⟩
      · exact hlater hm
    | hidden source => exact hlater h
    | tag kind content source =>
      rcases List.mem_cons.mp h with rfl | hm
      · exact ⟨[], .tag kind content source, ps, rfl, ⟨rfl, by simp⟩, rfl, rfl, rfl⟩
      · exact hlater hm

private theorem text_mem_ofPiecesAt (line start : Nat) (front : List Piece) (content : List Char)
    (back : List Piece) : ∃ t ∈ ofPiecesAt line start (front ++ .text content :: back),
      t.kind = .text ∧ t.start = start + byteLength (Piece.sources front) ∧
        t.stop = t.start + byteLength content := by
  induction front generalizing line start with
  | nil => exact ⟨_, List.mem_cons_self, rfl, rfl, rfl⟩
  | cons q front ih =>
    obtain ⟨t, ht, hkind, hstart, hstop⟩ := ih (line + newlines q.source)
      (start + byteLength q.source)
    refine ⟨t, ?_, hkind, ?_, hstop⟩
    · cases q with
      | hidden source => exact ht
      | _ => exact List.mem_cons_of_mem _ ht
    · rw [hstart, Piece.sources_cons, byteLength_append, Nat.add_assoc]

section Scan

variable {d : Delimiters} (hd : d.Firm)

include hd

theorem scan_tag {source : String} {t : Token} (ht : t ∈ scan d source) {kind : TagKind}
    (hkind : t.kind = kind.tokenKind) :
    ∃ before slice rest, source.toList = before ++ (slice ++ rest) ∧
      t.line = 1 + newlines before ∧ t.start = byteLength before ∧
      t.stop = t.start + byteLength slice ∧ (d.pair kind).Fastens t.content.toList slice := by
  obtain ⟨front, p, back, hps, hreads, hline, hstart, hstop⟩ := mem_ofPiecesAt ht
  have hfound : Piece.Found d (p :: back) := (hps ▸ Piece.cut_found hd source.toList).behind
  have hsource : source.toList = Piece.sources front ++ (p.source ++ Piece.sources back) := by
    rw [← (Piece.cut_spec d source.toList).2, hps]
    simp [Piece.sources]
  cases p with
  | text content =>
    rw [hreads.1] at hkind
    cases kind <;> cases hkind
  | hidden => exact hreads.elim
  | tag kind' content slice =>
    obtain rfl : kind' = kind := by
      have hsame := hreads.1.symm.trans hkind
      cases kind' <;> cases kind <;> first | rfl | cases hsame
    obtain ⟨hne, hfound⟩ := hfound.tag
    have hclosing : (d.pair kind').closing ∈ d.closings := by
      cases kind' <;> simp [Delimiters.pair, Delimiters.closings]
    obtain ⟨content', slice', rest, hcut, he, hfastens⟩ := Enclosure.tag?_fastens
      (hd.filled _ (List.mem_append_right _ hclosing)) (hd.solid _ hclosing)
      (Delimiters.enclosure?_tag_eq hfound)
    obtain ⟨-, rfl, hlength⟩ := Enclosure.tag.inj he
    obtain rfl : slice = slice' := List.append_inj_left hcut hlength
    refine ⟨_, slice, _, hsource, hline, hstart.trans (Nat.zero_add _), hstop, ?_⟩
    rw [hreads.2]
    exact hfastens hne

private theorem scan_text {source : String} {t : Token} (ht : t ∈ scan d source)
    (hkind : t.kind = .text) :
    t.content ≠ "" ∧ d.Clear t.content.toList := by
  obtain ⟨front, p, back, hps, hreads, -⟩ := mem_ofPiecesAt ht
  have hfound : Piece.Found d (p :: back) := (hps ▸ Piece.cut_found hd source.toList).behind
  cases p with
  | text content =>
    obtain ⟨hne, hliteral⟩ := hfound.literal
    rw [← hreads.2] at hne hliteral
    exact ⟨by simpa using hne, (Delimiters.literal_iff_clear hd).mp hliteral.alone⟩
  | hidden => exact hreads.elim
  | tag kind content slice =>
    rw [hreads.1] at hkind
    cases kind <;> cases hkind

/-- Just the texts without anything enclosed are cut into one token of text. -/
private theorem scan_clear {text : String} : text ≠ "" ∧ d.Clear text.toList ↔
    scan d text = [⟨1, .text, text, 0, text.utf8ByteSize⟩] := by
  constructor
  · rintro ⟨hne, hclear⟩
    have hcut := Piece.cut_literal (by simpa using hne)
      ((Delimiters.literal_iff_clear hd).mpr hclear)
    have hsize : text.utf8ByteSize = byteLength text.toList := by
      rw [byteLength_eq_size, String.utf8Encode_toList]
      rfl
    rw [scan, hcut, hsize]
    simp [ofPiecesAt, Piece.source]
  · intro h
    have hmem : (⟨1, .text, text, 0, text.utf8ByteSize⟩ : Token) ∈ scan d text :=
      h ▸ List.mem_singleton_self _
    exact scan_text hd hmem rfl

/-- An opening delimiter without its closing one behind it is text, unless something that is
enclosed takes it in: from before it on, or by other delimiters. -/
private theorem scan_unclosed {source : String} {p : Pair} {before after : List Char}
    (hsource : source.toList = before ++ (p.opening ++ after)) (hp : p ∈ d.pairs)
    (hclosing : ¬ p.closing <:+: after) :
    (∃ t ∈ scan d source, t.kind = .text ∧ t.start ≤ byteLength before ∧
      byteLength before < t.stop) ∨
    ∃ front slice rest e, source.toList = front ++ (slice ++ rest) ∧
      d.enclosure? (slice ++ rest) = some e ∧ e.length = slice.length ∧ front <+: before ∧
      before.length < front.length + slice.length ∧
      (front = before → ∃ q ∈ d.pairs, q ≠ p ∧ q.Begins (slice ++ rest)) := by
  have hopening : p.opening ≠ [] :=
    hd.filled _ (List.mem_append_left _ (Delimiters.opening_mem hp))
  have hcut := (Piece.cut_spec d source.toList).2.trans hsource
  obtain ⟨front, q, back, inner, tail, hps, rfl, hq, htail⟩ :=
    Piece.at_place hcut (List.append_ne_nil_of_left_ne_nil hopening after)
  have hfound : Piece.Found d (q :: back) := (hps ▸ Piece.cut_found hd source.toList).behind
  have hwhole : source.toList = Piece.sources front ++ (q.source ++ Piece.sources back) := by
    rw [← (Piece.cut_spec d source.toList).2, hps]
    simp [Piece.sources]
  -- The delimiter stands in one piece, and that is text or something that is enclosed.
  rcases hfound.enclosed with ⟨content, rfl⟩ | ⟨e, he, hlength⟩
  · obtain ⟨t, ht, hkind, hstart, hstop⟩ := text_mem_ofPiecesAt 1 0 front content back
    have hbytes : byteLength content = byteLength inner + byteLength tail := by
      rw [← byteLength_append, ← hq]
      rfl
    have hpos := byteLength_pos htail
    refine .inl ⟨t, ?_, hkind, ?_, ?_⟩
    · rw [scan, hps]
      exact ht
    · rw [hstart, byteLength_append]
      omega
    · rw [hstop, hstart, hbytes, byteLength_append]
      omega
  · have hpos := List.length_pos_iff.mpr htail
    refine .inr ⟨_, q.source, _, e, hwhole, he, hlength, List.prefix_append _ _, ?_,
      fun hsame => ?_⟩
    · rw [hq, List.length_append, List.length_append]
      omega
    · have hhere : q.source ++ Piece.sources back = p.opening ++ after := by
        rw [hwhole, ← hsame] at hsource
        exact List.append_cancel_left hsource
      have hnot : ¬ p.Begins (q.source ++ Piece.sources back) := by
        rw [hhere, Pair.begins_iff, List.drop_left]
        exact fun hbegins => hclosing hbegins.2
      obtain ⟨r, hr, hbegins⟩ := Delimiters.begins_of_enclosure? he
      exact ⟨r, hr, fun hrp => hnot (hrp ▸ hbegins), hbegins⟩

end Scan

/-- Tags are cut tightly: each is its delimiters around a content without blanks at its ends, and
its closing delimiter is the first one behind the opening one. A text is one token by itself, since
exactly the texts with no tag and no comment are; so an opening delimiter that nothing closes is
text, unless it is inside of something else. -/
theorem scan_tight {d : Delimiters} (hd : d.Firm) (source : String) :
    (∀ t ∈ scan d source, ∀ kind : TagKind, t.kind = kind.tokenKind →
      ∃ before slice rest, source.toList = before ++ (slice ++ rest) ∧
        t.start = byteLength before ∧ t.stop = t.start + byteLength slice ∧
        (d.pair kind).Fastens t.content.toList slice) ∧
    (∀ t ∈ scan d source, t.kind = .text →
      scan d t.content = [⟨1, .text, t.content, 0, t.content.utf8ByteSize⟩] ∧
        d.Clear t.content.toList) ∧
    (∀ text : String, text ≠ "" ∧ d.Clear text.toList ↔
      scan d text = [⟨1, .text, text, 0, text.utf8ByteSize⟩]) ∧
    ∀ p ∈ d.pairs, ∀ before after, source.toList = before ++ (p.opening ++ after) →
      ¬ p.closing <:+: after →
      (∃ t ∈ scan d source, t.kind = .text ∧ t.start ≤ byteLength before ∧
        byteLength before < t.stop) ∨
      ∃ front slice rest e, source.toList = front ++ (slice ++ rest) ∧
        d.enclosure? (slice ++ rest) = some e ∧ e.length = slice.length ∧ front <+: before ∧
        before.length < front.length + slice.length ∧
        (front = before → ∃ q ∈ d.pairs, q ≠ p ∧ q.Begins (slice ++ rest)) := by
  refine ⟨fun t ht kind hkind => ?_, fun t ht hkind => ?_, fun text => scan_clear hd,
    fun p hp before after hsource hclosing => scan_unclosed hd hsource hp hclosing⟩
  · obtain ⟨before, slice, rest, hsource, -, hstart, hstop, hfastens⟩ := scan_tag hd ht hkind
    exact ⟨before, slice, rest, hsource, hstart, hstop, hfastens⟩
  · have hclear := scan_text hd ht hkind
    exact ⟨(scan_clear hd).mp hclear, hclear.2⟩

/-- The delimiters of other pairs inside of a tag, and one that nothing closes behind it. -/
theorem scan_tight_unclosed :
    let source := "\x7b\x7b a \x7b% b \x7d\x7d\x7d \x7b# c"
    let tag : Token := ⟨1, .expression, "a \x7b% b", 0, 12⟩
    let text : Token := ⟨1, .text, "\x7d \x7b# c", 12, 18⟩
    Delimiters.standard.Firm ∧ scan .standard source = [tag, text] ∧
      (∃ before slice rest, source.toList = before ++ (slice ++ rest) ∧ 0 = byteLength before ∧
        12 = 0 + byteLength slice ∧
        Delimiters.standard.expression.Fastens tag.content.toList slice) ∧
      scan .standard text.content = [⟨1, .text, text.content, 0, 6⟩] := by
  intro source tag text
  have hd := Delimiters.standard_firm
  have hscan : scan .standard source = [tag, text] := by
    dsimp only [source, tag, text]
    decide +kernel
  obtain ⟨htags, htexts, -⟩ := scan_tight hd source
  have htag : tag ∈ scan .standard source := by simp [hscan]
  have htext : text ∈ scan .standard source := by simp [hscan]
  exact ⟨hd, hscan, htags tag htag .expression rfl, (htexts text htext rfl).1⟩

end Token

end Stencil
