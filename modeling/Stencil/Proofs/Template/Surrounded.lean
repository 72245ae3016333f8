import Stencil.Proofs.Expr.Phrases
import Stencil.Proofs.Markup.Printing
import Stencil.Proofs.Template.Derivation

/-! # A tag between literal texts -/

namespace Stencil

/-- A block tag with a literal text on either side. -/
structure Delimiters.Surrounds (d : Delimiters) (front tag content back : List Char) : Prop where
  front : d.Literal front (tag ++ back)
  tag : d.enclosure? (tag ++ back) = some (.tag .block content tag.length)
  back : d.Literal back []

/-- The content of a tag that inserts a template by its name, which is written out in it. -/
def InsertsName (name : String) (content : List Char) : Prop :=
  ∃ f : Formula, WordForm ['i', 'n', 'c', 'l', 'u', 'd', 'e'] f.source.toList content ∧
    Formula.parse f.source = .ok f ∧ f.tree = .literal (.text name)

def Delimiters.Inserts (d : Delimiters) (name : String) (front tag back : List Char) : Prop :=
  ∃ content, d.Surrounds front tag content back ∧ InsertsName name content

private theorem InsertsName.ne_nil {name : String} {content : List Char}
    (h : InsertsName name content) :
    content ≠ [] := by
  obtain ⟨f, ⟨gap, -, -, -, rfl⟩, -⟩ := h
  simp

namespace Token

def Spell (ts : List Token) (text : String) : Prop :=
  (∀ t ∈ ts, t.kind = .text) ∧ String.join (ts.map content) = text

def segment (t : Token) : Segment :=
  ⟨t.line, .text t.content⟩

private theorem ofPiecesAt_flush (before : List Char) (ps : List Piece) (line start : Nat) :
    ∃ ts line' start', ofPiecesAt line start (Piece.flush before ps) =
        ts ++ ofPiecesAt line' start' ps ∧ Spell ts (String.ofList before.reverse) := by
  cases before with
  | nil => exact ⟨[], line, start, rfl, by simp, rfl⟩
  | cons c before =>
    refine ⟨_, _, _, (List.singleton_append).symm, ?_, ?_⟩
    · simp
    · simp [String.join]

private theorem scan_surrounds {d : Delimiters} {front tag content back : List Char}
    (h : d.Surrounds front tag content back) (hc : content ≠ []) :
    ∃ before t after, scan d (String.ofList (front ++ tag ++ back)) = before ++ t :: after ∧
      Spell before (String.ofList front) ∧ Spell after (String.ofList back) ∧
        t.kind = .block ∧ t.content.toList = content := by
  have htag : tag ≠ [] := by
    obtain ⟨source, rest, -, hlen, lead, trail, -, -, hsource⟩ := Delimiters.enclosure?_form h.tag
    intro he
    have hempty : source = [] := List.length_eq_zero_iff.mp (by rw [← hlen, he]; rfl)
    rw [hempty] at hsource
    simp [hc] at hsource
  have hcut : Piece.cut d (front ++ tag ++ back) =
      Piece.flush front.reverse (.tag .block content tag :: Piece.flush back.reverse []) := by
    have hend : Piece.cutFrom d 0 [] back = Piece.flush back.reverse [] := by
      have hall := Piece.cutFrom_literal h.back []
      rw [List.append_nil, List.append_nil] at hall
      rw [hall, Piece.cutFrom]
    have hpiece : Piece.ofEnclosure (.tag .block content tag.length) tag =
        .tag .block content tag := by
      rw [Piece.ofEnclosure, if_neg (by simpa using hc)]
    rw [Piece.cut, List.append_assoc, Piece.cutFrom_literal h.front, List.append_nil,
      Piece.cutFrom_enclosure htag h.tag rfl, hpiece, hend]
  obtain ⟨before, line, start, hbefore, hfront⟩ := ofPiecesAt_flush front.reverse
    (.tag .block content tag :: Piece.flush back.reverse []) 1 0
  obtain ⟨after, line', start', hafter, hback⟩ := ofPiecesAt_flush back.reverse []
    (line + Text.newlines tag) (start + byteLength tag)
  rw [List.reverse_reverse] at hfront hback
  rw [ofPiecesAt, List.append_nil] at hafter
  refine ⟨before, ⟨line, .block, String.ofList content, start, start + byteLength tag⟩, after, ?_,
    hfront, hback, rfl, by simp⟩
  rw [scan, String.toList_ofList, hcut, hbefore, ofPiecesAt]
  exact congrArg (fun ts => before ++ _ :: ts) hafter

end Token

namespace Assembly

private theorem run_texts {builtins : Bool} {custom : List CustomTag} {ts : List Token}
    (h : ∀ t ∈ ts, t.kind = .text) (a : Assembly) : ts.foldlM (step builtins custom) a =
      .ok ⟨a.frames, (ts.map Token.segment).reverse ++ a.current⟩ := by
  induction ts generalizing a with
  | nil => rfl
  | cons t ts ih =>
    obtain ⟨hfirst, hrest⟩ := List.forall_mem_cons.mp h
    rw [run_cons ts (step_text hfirst), ih hrest]
    simp [push, Token.segment]

private theorem ofTokens_insertion {custom : List CustomTag} {before after : List Token} {t : Token}
    {f : Formula} (hb : ∀ t ∈ before, t.kind = .text) (ha : ∀ t ∈ after, t.kind = .text)
    (ht : t.IsHeader ['i', 'n', 'c', 'l', 'u', 'd', 'e'] f) :
    ofTokens true custom (before ++ t :: after) =
      .ok (before.map Token.segment ++ ⟨t.line, .insertion f⟩ :: after.map Token.segment) := by
  rw [ofTokens, run_append _ (run_texts hb start), run_cons after (step_insertion ht),
    run_texts ha]
  simp [start, push, finish, bind, Except.bind]

/-- Without the builtin tags a single block tag is not known, or it is one of the host that is left
open. -/
private theorem ofTokens_tag {custom : List CustomTag} {before after : List Token} {t : Token}
    (hb : ∀ t ∈ before, t.kind = .text) (ha : ∀ t ∈ after, t.kind = .text) (ht : t.kind = .block) :
    ∃ fault, ofTokens false custom (before ++ t :: after) = .error fault := by
  let a : Assembly := ⟨[], (before.map Token.segment).reverse⟩
  have hrun : ofTokens false custom (before ++ t :: after) =
      step false custom a t >>= fun b => after.foldlM (step false custom) b >>= finish := by
    rw [ofTokens, run_append _ (run_texts hb start), List.foldlM_cons, bind_assoc]
    simp [start, a]
  rw [hrun, step, ht]
  cases hh : Header.read? false custom t.content.toList with
  | none => exact ⟨_, rfl⟩
  | some h =>
    obtain ⟨tag, -, rfl⟩ : ∃ tag, _ ∧ Header.captured tag = h := by
      simpa only [Header.read?, Bool.false_eq_true, if_false, Option.none_or,
        Option.map_eq_some_iff] using hh
    refine ⟨(.unclosed tag.name tag.ending, t.line), ?_⟩
    change after.foldlM (step false custom) (a.openBlock t.line (.captured tag)) >>= finish = _
    rw [run_texts ha]
    rfl

end Assembly

theorem Dialect.assemble_without_builtins {d : Dialect} (hd : d.builtins = false)
    {front tag back : List Char} {name : String} (h : d.delimiters.Inserts name front tag back)
    (template : String) :
    ∃ e, d.assemble (String.ofList (front ++ tag ++ back)) template = .error e := by
  obtain ⟨content, hsurrounds, hc⟩ := h
  obtain ⟨before, t, after, hscan, hbefore, hafter, hkind, -⟩ :=
    Token.scan_surrounds hsurrounds hc.ne_nil
  have hfault : ∃ fault, Assembly.ofTokens false d.custom (before ++ t :: after) = .error fault :=
    Assembly.ofTokens_tag hbefore.1 hafter.1 hkind
  obtain ⟨⟨fault, line⟩, hfault⟩ := hfault
  rw [assemble, tokens, hscan, hd, hfault]
  exact ⟨_, rfl⟩

theorem Dialect.assemble_inserts {d : Dialect} (hd : d.builtins = true)
    {front tag back : List Char} {name : String} (h : d.delimiters.Inserts name front tag back)
    (template : String) :
    ∃ before line after f, d.assemble (String.ofList (front ++ tag ++ back)) template =
        .ok (before.map Token.segment ++ ⟨line, .insertion f⟩ :: after.map Token.segment) ∧
      Token.Spell before (String.ofList front) ∧ Token.Spell after (String.ofList back) ∧
        f.tree = .literal (.text name) := by
  obtain ⟨content, hsurrounds, hc⟩ := h
  obtain ⟨before, t, after, hscan, hbefore, hafter, hkind, hcontent⟩ :=
    Token.scan_surrounds hsurrounds hc.ne_nil
  obtain ⟨f, hform, hparse, htree⟩ := hc
  have ht : t.IsHeader ['i', 'n', 'c', 'l', 'u', 'd', 'e'] f := ⟨hkind, hcontent ▸ hform, hparse⟩
  refine ⟨before, t.line, after, f, ?_, hbefore, hafter, htree⟩
  rw [assemble, tokens, hscan, hd, Assembly.ofTokens_insertion hbefore.1 hafter.1 ht]

private theorem infix_of_blank {closing cs rest : List Char} {blank : Char}
    (hblank : Text.isBlank blank = true) (hc : ∀ c ∈ closing, Text.isBlank c = false)
    (h : closing <:+: cs ++ blank :: rest) : closing <:+: cs ∨ closing <:+: rest := by
  induction cs with
  | nil =>
    rcases List.infix_cons_iff.mp h with hp | hi
    · by_contra hno
      have hnil : ¬ closing <+: [] := fun hn => hno (.inl hn.isInfix)
      exact not_prefix_of_blank hblank hc hnil rest hp
    · exact .inr hi
  | cons c cs ih =>
    rcases List.infix_cons_iff.mp h with hp | hi
    · by_contra hno
      have hfront : ¬ closing <+: c :: cs := fun hn => hno (.inl hn.isInfix)
      exact not_prefix_of_blank hblank hc hfront rest hp
    · exact (ih hi).imp_left fun hcs => hcs.trans (List.infix_cons List.infix_rfl)

def insertionOf (name : String) : List Char :=
  ['i', 'n', 'c', 'l', 'u', 'd', 'e'] ++ ' ' :: Text.quoted name.toList

private theorem solid_quoted (cs : List Char) : Text.Solid (Text.quoted cs) := by
  rcases Text.quoteMark_cases cs with h | h
  all_goals
    rw [Text.quoted, h]
    rfl

private theorem solid_quoted_reverse (cs : List Char) : Text.Solid (Text.quoted cs).reverse := by
  rcases Text.quoteMark_cases cs with h | h
  all_goals
    rw [Text.quoted, h, List.reverse_append]
    rfl

private theorem insertsName_insertionOf (name : String) : InsertsName name (insertionOf name) := by
  have hspells : (Expr.literal (.text name)).Writes (Text.quoted name.toList) := by
    have hend : Layout [] [] := .nil fun c hc => by cases hc
    have hword := Layout.word (Text.quoted name.toList) hend fun c hc => by cases hc
    rwa [List.append_nil] at hword
  have hplain : (Expr.literal (.text name)).Plain :=
    .literal (show (Literal.text name).Plain from trivial)
  have hparse := hplain.parse_writes hspells
  have hgap : Text.Blanks [' '] := fun c hc => by cases List.mem_singleton.mp hc; rfl
  refine ⟨⟨String.ofList (Text.quoted name.toList), .literal (.text name)⟩, ?_, ?_, rfl⟩
  · rw [String.toList_ofList]
    exact ⟨[' '], by simp, hgap, solid_quoted _, rfl⟩
  · rw [Formula.parse, hparse]
    rfl

private theorem holds_insertionOf {p : Pair} (hp : ∀ c ∈ p.closing, Text.isBlank c = false)
    {name : String} (hword : ¬ p.closing <:+: ['i', 'n', 'c', 'l', 'u', 'd', 'e'])
    (hname : ¬ p.closing <:+: Text.quoted name.toList) : p.Holds (insertionOf name) := by
  refine ⟨rfl, ?_, ?_⟩
  · rw [insertionOf, List.reverse_append, List.reverse_cons]
    exact ((solid_quoted_reverse _).append _).append _
  · intro h
    exact (infix_of_blank (by decide) hp h).elim hword hname

theorem Delimiters.Apart.inserts {d : Delimiters} (h : d.Apart) {front back : List Char}
    {name : String} (hword : ¬ d.block.closing <:+: ['i', 'n', 'c', 'l', 'u', 'd', 'e'])
    (hname : ¬ d.block.closing <:+: Text.quoted name.toList)
    (hfront : d.Literal front (d.block.print ' ' (insertionOf name) ++ back))
    (hback : d.Literal back []) :
    d.Inserts name front (d.block.print ' ' (insertionOf name)) back := by
  have hholds := holds_insertionOf (h.closing_pair .block) hword hname
  have hblank : Text.isBlank ' ' = true := rfl
  have htag := h.enclosure?_tag hblank .block hholds back
  exact ⟨insertionOf name, ⟨hfront, htag, hback⟩, insertsName_insertionOf name⟩

end Stencil
