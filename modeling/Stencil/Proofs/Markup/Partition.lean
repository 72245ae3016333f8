import Stencil.Markup.Token
import Stencil.Proofs.Markup.Enclosure

/-!
# The cut of a source

The pieces of a source are the source, and a piece that makes no token is a comment or a tag around
nothing. Hence the tokens are an ordered cut of the source that leaves out such matches only.
-/

namespace Stencil

open Text

/-- A match that makes no token, and the text behind it. -/
def Delimiters.Drops (d : Delimiters) (source rest : List Char) : Prop :=
  (d.enclosure? (source ++ rest) = some (.comment source.length) ∧
    ∃ inner, source = d.comment.opening ++ (inner ++ d.comment.closing)) ∨
  ∃ kind margin, d.enclosure? (source ++ rest) = some (.tag kind [] source.length) ∧
    Blanks margin ∧ source = (d.pair kind).opening ++ (margin ++ (d.pair kind).closing)

namespace Piece

def sources (ps : List Piece) : List Char :=
  ps.flatMap source

inductive Cut (d : Delimiters) : List Piece → Prop where
  | nil : Cut d []
  | text {content ps} : content ≠ [] → Cut d ps → Cut d (text content :: ps)
  | hidden {source ps} : source ≠ [] → d.Drops source (sources ps) → Cut d ps →
      Cut d (hidden source :: ps)
  | tag {kind content source ps} : source ≠ [] → content ≠ [] →
      (d.pair kind).Encloses content source → Cut d ps → Cut d (tag kind content source :: ps)

@[simp] theorem sources_cons (p : Piece) (ps : List Piece) :
    sources (p :: ps) = p.source ++ sources ps :=
  rfl

private theorem flush_sources (before : List Char) (ps : List Piece) :
    sources (flush before ps) = before.reverse ++ sources ps := by
  cases before <;> rfl

private theorem flush_cut {d : Delimiters} {ps : List Piece} (before : List Char) (h : Cut d ps) :
    Cut d (flush before ps) := by
  cases before with
  | nil => exact h
  | cons c before => exact Cut.text (by simp) h

private theorem ofEnclosure_cut {d : Delimiters} {e : Enclosure} {source : List Char}
    {ps : List Piece}
    (hn : source ≠ []) (he : d.enclosure? (source ++ sources ps) = some e) (hf : e.Form d source)
    (h : Cut d ps) : Cut d (ofEnclosure e source :: ps) := by
  cases e with
  | comment n =>
    obtain ⟨rfl, hinner⟩ := hf
    exact Cut.hidden hn (Or.inl ⟨he, hinner⟩) h
  | tag kind content n =>
    obtain ⟨rfl, henc⟩ := hf
    rw [ofEnclosure]
    cases content with
    | nil =>
      obtain ⟨lead, trail, hl, ht, hs⟩ := henc
      refine Cut.hidden hn (Or.inr ⟨kind, lead ++ trail, he, ?_, ?_⟩) h
      · intro c hc
        exact (List.mem_append.mp hc).elim (hl c) (ht c)
      · rw [hs, List.nil_append, List.append_assoc]
    | cons c content => exact Cut.tag hn (by simp) henc h

theorem ofEnclosure_source (e : Enclosure) (s : List Char) : (ofEnclosure e s).source = s := by
  cases e with
  | comment n => rfl
  | tag kind content n => cases content <;> rfl

/-- Cutting on from a place loses nothing but what is skipped. -/
theorem cutFrom_spec (d : Delimiters) (skip : Nat) (before cs : List Char) :
    Cut d (cutFrom d skip before cs) ∧
      sources (cutFrom d skip before cs) = before.reverse ++ cs.drop skip := by
  induction cs generalizing skip before with
  | nil =>
    have hn : cutFrom d skip before [] = flush before [] := by cases skip <;> rfl
    rw [hn, flush_sources, List.drop_nil]
    exact ⟨flush_cut before Cut.nil, rfl⟩
  | cons c cs ih =>
    cases skip with
    | succ skip => exact ih skip before
    | zero =>
      rw [cutFrom]
      cases he : d.enclosure? (c :: cs) with
      | none =>
        obtain ⟨hcut, hs⟩ := ih 0 (c :: before)
        exact ⟨hcut, by simpa using hs⟩
      | some e =>
        dsimp only
        obtain ⟨source, rest, hcs, hform⟩ := Delimiters.enclosure?_form he
        have hlen : e.length = source.length := by cases e <;> exact hform.1
        cases hl : e.length with
        | zero =>
          obtain ⟨hcut, hs⟩ := ih 0 [c]
          exact ⟨flush_cut before hcut, by rw [flush_sources, hs]; rfl⟩
        | succ n =>
          obtain ⟨hcut, hs⟩ := ih n []
          have hsource : source = c :: cs.take n := by
            have ht := congrArg (List.take (n + 1)) hcs
            rw [List.take_succ_cons, ← hl, hlen, List.take_left] at ht
            exact ht.symm
          subst hsource
          have hrest : c :: cs.take n ++ sources (cutFrom d n [] cs) = c :: cs := by
            rw [hs, List.reverse_nil, List.nil_append, List.cons_append, List.take_append_drop]
          refine ⟨flush_cut before (ofEnclosure_cut (by simp) ?_ hform hcut), ?_⟩
          · rw [hrest]
            exact he
          · rw [flush_sources, sources_cons, ofEnclosure_source, hrest]
            rfl

theorem cut_spec (d : Delimiters) (source : List Char) :
    Cut d (cut d source) ∧ sources (cut d source) = source :=
  cutFrom_spec d 0 [] source

end Piece

namespace Token

theorem byteLength_append (cs ds : List Char) :
    byteLength (cs ++ ds) = byteLength cs + byteLength ds := by
  induction cs with
  | nil => simp [byteLength]
  | cons c cs ih =>
    rw [List.cons_append, byteLength, byteLength, ih]
    omega

theorem byteLength_pos {cs : List Char} (h : cs ≠ []) : 0 < byteLength cs := by
  cases cs with
  | nil => exact absurd rfl h
  | cons c cs =>
    have hc := c.utf8Size_pos
    rw [byteLength]
    omega

theorem byteLength_eq_size (cs : List Char) : byteLength cs = cs.utf8Encode.size := by
  induction cs with
  | nil => simp [byteLength]
  | cons c cs ih =>
    rw [byteLength, ih, List.utf8Encode_cons, ByteArray.size_append, List.utf8Encode_singleton]
    simp

private theorem extract_utf8Encode (before part rest : List Char) :
    (before ++ (part ++ rest)).utf8Encode.extract (byteLength before)
      (byteLength before + byteLength part) = part.utf8Encode := by
  have h := ByteArray.extract_append_size_add (a := before.utf8Encode)
    (b := part.utf8Encode ++ rest.utf8Encode) (i := 0) (j := part.utf8Encode.size)
  rw [Nat.add_zero, ByteArray.extract_append_size_left, ByteArray.extract_zero_size] at h
  rw [List.utf8Encode_append, List.utf8Encode_append, byteLength_eq_size, byteLength_eq_size]
  exact h

def Placed (source : List Char) (t : Token) : Prop :=
  ∃ before part rest, source = before ++ (part ++ rest) ∧ part ≠ [] ∧
    t.start = byteLength before ∧ t.stop = byteLength before + byteLength part ∧
    t.line = 1 + newlines before ∧ (t.kind = .text → t.content = String.ofList part)

/-- A place between tokens that a dropped match takes. -/
def Gap (d : Delimiters) (source : List Char) (first : Nat) (ts : List Token) (i : Nat) : Prop :=
  ∃ before part rest, source = before ++ (part ++ rest) ∧ d.Drops part rest ∧
    first ≤ byteLength before ∧ byteLength before ≤ i ∧
    i < byteLength before + byteLength part ∧
    ∀ t ∈ ts, t.stop ≤ byteLength before ∨ byteLength before + byteLength part ≤ t.start

/-- Tokens that cut a source from a byte on, in order and without loss. -/
structure CutsFrom (d : Delimiters) (source : List Char) (first : Nat) (ts : List Token) :
    Prop where
  ordered : ts.Pairwise fun a b => a.stop ≤ b.start
  placed : ∀ t ∈ ts, first ≤ t.start ∧ t.Placed source
  covered : ∀ i, first ≤ i → i < byteLength source →
    (∃ t ∈ ts, t.start ≤ i ∧ i < t.stop) ∨ Gap d source first ts i

namespace CutsFrom

variable {d : Delimiters} {source : List Char} {ts : List Token}

private theorem start_lt_stop {t : Token} (h : t.Placed source) : t.start < t.stop := by
  obtain ⟨before, part, rest, _, hn, hstart, hstop, _⟩ := h
  have hpos := byteLength_pos hn
  omega

private theorem cons {t : Token} (h : CutsFrom d source t.stop ts) (ht : t.Placed source) :
    CutsFrom d source t.start (t :: ts) := by
  have hlt := start_lt_stop ht
  constructor
  · exact List.pairwise_cons.mpr ⟨fun u hu => (h.placed u hu).1, h.ordered⟩
  · intro u hu
    rcases List.mem_cons.mp hu with rfl | hu
    · exact ⟨Nat.le_refl _, ht⟩
    · have hu' := h.placed u hu
      exact ⟨by omega, hu'.2⟩
  · intro i hi hlen
    rcases Nat.lt_or_ge i t.stop with hin | hout
    · exact Or.inl ⟨t, List.mem_cons_self, hi, hin⟩
    · rcases h.covered i hout hlen with ⟨u, hu, hspan⟩ |
        ⟨before, part, rest, hs, hd, hfirst, hb, he, hfree⟩
      · exact Or.inl ⟨u, List.mem_cons_of_mem _ hu, hspan⟩
      · refine Or.inr ⟨before, part, rest, hs, hd, by omega, hb, he, ?_⟩
        intro u hu
        rcases List.mem_cons.mp hu with rfl | hu
        · exact Or.inl hfirst
        · exact hfree u hu

private theorem skip {before part rest : List Char} (hd : d.Drops part rest)
    (h : CutsFrom d (before ++ (part ++ rest)) (byteLength before + byteLength part) ts) :
    CutsFrom d (before ++ (part ++ rest)) (byteLength before) ts := by
  refine ⟨h.ordered, ?_, ?_⟩
  · intro t ht
    have ht' := h.placed t ht
    exact ⟨by omega, ht'.2⟩
  · intro i hi hlen
    rcases Nat.lt_or_ge i (byteLength before + byteLength part) with hin | hout
    · exact Or.inr ⟨before, part, rest, rfl, hd, Nat.le_refl _, hi, hin,
        fun t ht => Or.inr (h.placed t ht).1⟩
    · rcases h.covered i hout hlen with hcov | ⟨b, p, r, hs, hdrop, hfirst, hb, he, hfree⟩
      · exact Or.inl hcov
      · exact Or.inr ⟨b, p, r, hs, hdrop, by omega, hb, he, hfree⟩

end CutsFrom

theorem newlines_append (cs ds : List Char) : newlines (cs ++ ds) = newlines cs + newlines ds :=
  List.count_append

private theorem ofPiecesAt_cuts {d : Delimiters} {ps : List Piece} (h : Piece.Cut d ps)
    (before : List Char) :
    CutsFrom d (before ++ Piece.sources ps) (byteLength before)
      (ofPiecesAt (1 + newlines before) (byteLength before) ps) := by
  induction h generalizing before with
  | nil =>
    refine ⟨List.Pairwise.nil, by simp [ofPiecesAt], ?_⟩
    intro i hi hlen
    rw [Piece.sources, List.flatMap_nil, List.append_nil] at hlen
    omega
  | @text content ps hn _ ih =>
    have hrest := ih (before ++ content)
    rw [byteLength_append, newlines_append, ← Nat.add_assoc, List.append_assoc] at hrest
    exact CutsFrom.cons (t := ⟨_, .text, _, _, _⟩) hrest
      ⟨before, content, Piece.sources ps, rfl, hn, rfl, rfl, rfl, fun _ => rfl⟩
  | @hidden source ps _ hd _ ih =>
    have hrest := ih (before ++ source)
    rw [byteLength_append, newlines_append, ← Nat.add_assoc, List.append_assoc] at hrest
    exact CutsFrom.skip hd hrest
  | @tag kind content source ps hn _ _ _ ih =>
    have hrest := ih (before ++ source)
    rw [byteLength_append, newlines_append, ← Nat.add_assoc, List.append_assoc] at hrest
    refine CutsFrom.cons (t := ⟨_, kind.tokenKind, _, _, _⟩) hrest
      ⟨before, source, Piece.sources ps, rfl, hn, rfl, rfl, rfl, fun hk => ?_⟩
    cases kind <;> simp [TagKind.tokenKind] at hk

theorem scan_cuts (d : Delimiters) (source : String) :
    CutsFrom d source.toList 0 (scan d source) := by
  obtain ⟨hcut, hsources⟩ := Piece.cut_spec d source.toList
  have h := ofPiecesAt_cuts hcut []
  rw [hsources, List.nil_append] at h
  exact h

/-- The tokens of a source are an ordered cut of it: they take bytes of their own one after
another, a text is the slice it takes, all that lies between tokens is dropped matches, and lines
count the line feeds before. -/
theorem scan_partition (d : Delimiters) (source : String) :
    ((scan d source).Pairwise fun a b => a.start < b.start ∧ a.stop ≤ b.start) ∧
    (∀ t ∈ scan d source, t.start < t.stop ∧ t.stop ≤ source.utf8ByteSize ∧
      (t.kind = .text →
        t.content.toByteArray = source.toByteArray.extract t.start t.stop) ∧
      ∃ before rest, source.toList = before ++ rest ∧ byteLength before = t.start ∧
        t.line = 1 + newlines before) ∧
    ∀ i < source.utf8ByteSize, (∃ t ∈ scan d source, t.start ≤ i ∧ i < t.stop) ∨
      ∃ before part rest, source.toList = before ++ (part ++ rest) ∧ d.Drops part rest ∧
        byteLength before ≤ i ∧ i < byteLength before + byteLength part ∧
        ∀ t ∈ scan d source, t.stop ≤ byteLength before ∨
          byteLength before + byteLength part ≤ t.start := by
  have h := scan_cuts d source
  have hsize : source.utf8ByteSize = byteLength source.toList := by
    rw [byteLength_eq_size, String.utf8Encode_toList]
    rfl
  refine ⟨?_, ?_, ?_⟩
  · refine h.ordered.imp_of_mem ?_
    intro a b ha _ hab
    have hlt := CutsFrom.start_lt_stop (h.placed a ha).2
    exact ⟨by omega, hab⟩
  · intro t ht
    have hp := (h.placed t ht).2
    have hlt := CutsFrom.start_lt_stop hp
    obtain ⟨before, part, rest, hs, hn, hstart, hstop, hline, htext⟩ := hp
    refine ⟨hlt, ?_, ?_, before, part ++ rest, hs, hstart.symm, hline⟩
    · rw [hsize, hs, byteLength_append, byteLength_append]
      omega
    · intro hk
      rw [htext hk, String.toByteArray_ofList, ← String.utf8Encode_toList, hs, hstart, hstop,
        extract_utf8Encode]
  · intro i hi
    rw [hsize] at hi
    rcases h.covered i (Nat.zero_le i) hi with hcov |
      ⟨before, part, rest, hs, hd, _, hb, he, hfree⟩
    · exact Or.inl hcov
    · exact Or.inr ⟨before, part, rest, hs, hd, hb, he, hfree⟩

end Token

end Stencil
