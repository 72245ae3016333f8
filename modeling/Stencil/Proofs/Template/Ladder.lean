import Stencil.Proofs.Template.Effect

/-!
# Chains of conditions

A choice as it is written, with any number of conditions, and the same choice with every further
condition as a choice of its own inside a last block. Either is taken in as one segment.
-/

namespace Stencil

structure Body (custom : List CustomTag) where
  tokens : List Token
  block : Block
  made : Assembly.ofTokens true custom tokens = .ok block

structure Rung (custom : List CustomTag) (word : List Char) where
  tag : Token
  condition : Formula
  body : Body custom
  header : tag.IsHeader word condition

structure Tail (custom : List CustomTag) where
  last : Option ({ t : Token // t.IsWord ['e', 'l', 's', 'e'] } × Body custom)
  ending : Token
  closes : ending.IsWord ['e', 'n', 'd', 'i', 'f']

/-- A choice as it is written. No tag of the host goes by what is said inside it. -/
structure Ladder (custom : List CustomTag) where
  first : Rung custom ['i', 'f']
  more : List (Rung custom ['e', 'l', 'i', 'f'])
  tail : Tail custom
  unclaimed : ∀ tag ∈ custom, Branch.read? tag.name.toList = none

structure Clause where
  line : Nat
  condition : Formula
  body : Block

variable {custom : List CustomTag}

namespace Rung

variable {word : List Char}

def tokens (r : Rung custom word) : List Token :=
  r.tag :: r.body.tokens

def clause (r : Rung custom word) : Clause :=
  ⟨r.tag.line, r.condition, r.body.block⟩

def beginning (r : Rung custom ['e', 'l', 'i', 'f']) : Rung custom ['i', 'f'] where
  tag := { r.tag with content := String.ofList (r.tag.content.toList.drop 2) }
  condition := r.condition
  body := r.body
  header := by
    obtain ⟨hk, ⟨gap, hn, hg, ha, hc⟩, hf⟩ := r.header
    refine ⟨hk, ⟨gap, hn, hg, ha, ?_⟩, hf⟩
    rw [String.toList_ofList, hc]
    rfl

def otherwise (r : Rung custom ['e', 'l', 'i', 'f']) :
    { t : Token // t.IsWord ['e', 'l', 's', 'e'] } :=
  ⟨{ r.tag with content := String.ofList ['e', 'l', 's', 'e'] }, r.header.1, String.toList_ofList⟩

end Rung

namespace Tail

def tokens (e : Tail custom) : List Token :=
  match e.last with
  | none => [e.ending]
  | some (t, body) => t.val :: body.tokens ++ [e.ending]

def otherwise (e : Tail custom) : Option Block :=
  e.last.map fun last => last.2.block

end Tail

def Clause.branch (c : Clause) : Formula × Block :=
  (c.condition, c.body)

namespace Ladder

def tokens (l : Ladder custom) : List Token :=
  l.first.tokens ++ (l.more.flatMap Rung.tokens ++ l.tail.tokens)

def clauses (l : Ladder custom) : List Clause :=
  l.first.clause :: l.more.map Rung.clause

def segment (l : Ladder custom) : Segment :=
  ⟨l.first.tag.line, .choice (l.clauses.map Clause.branch) l.tail.otherwise⟩

end Ladder

namespace Assembly

private theorem step_builtin {a : Assembly} {t : Token}
    (h : Header.read? true custom t.content.toList =
    Header.read? true [] t.content.toList) : step true custom a t = step true [] a t := by
  unfold step
  rw [h]

section Words

variable (hcustom : ∀ tag ∈ custom, Branch.read? tag.name.toList = none)
include hcustom

/-- What is said inside a choice is not taken by a tag of the host. -/
private theorem run_said {a a' : Assembly} {t : Token} {b : Branch}
    (hread : Branch.read? t.content.toList = some b) (hstep : step true [] a t = .ok a')
    (ts : List Token) :
    (t :: ts).foldlM (step true custom) a = ts.foldlM (step true custom) a' := by
  have hnone : (custom.find? fun tag => tag.name.toList == t.content.toList) = none := by
    rw [List.find?_eq_none]
    intro tag htag hname
    have hfree := hcustom tag htag
    rw [beq_iff_eq.mp hname, hread] at hfree
    simp at hfree
  have hheader : Header.read? true custom t.content.toList =
      Header.read? true [] t.content.toList := by
    rw [Header.read?, Header.read?, hnone]
    rfl
  exact run_cons ts ((step_builtin hheader).trans hstep)

variable {line : Nat} {done : List (Formula × Block)} {f : Formula} {b before : Block}
variable {frames : List Frame}

private theorem run_tail (e : Tail custom) :
    e.tokens.foldlM (step true custom) ⟨⟨line, .clause done f, before⟩ :: frames, b⟩ =
      .ok ⟨frames, ⟨line, .choice (done ++ [(f, b.reverse)]) e.otherwise⟩ :: before⟩ := by
  obtain ⟨last, u, hu⟩ := e
  have hread : Branch.read? u.content.toList = some .ending := by
    rw [hu.2]
    rfl
  cases last with
  | none => exact run_said hcustom hread (step_endChoice hu) []
  | some last =>
    obtain ⟨⟨t, ht⟩, body⟩ := last
    have hsaid : Branch.read? t.content.toList = some .otherwise := by
      rw [ht.2]
      rfl
    have hend : [u].foldlM (step true custom)
        ⟨⟨line, .otherwise (done ++ [(f, b.reverse)]), before⟩ :: frames, body.block.reverse⟩ =
        .ok ⟨frames, ⟨line, .choice (done ++ [(f, b.reverse)]) (some body.block)⟩ :: before⟩ := by
      rw [run_said hcustom hread (step_endOtherwise hu), List.reverse_reverse]
      rfl
    change (t :: (body.tokens ++ [u])).foldlM _ _ = _
    rw [run_said hcustom hsaid (step_otherwise ht), run_append _ (run_ofTokens body.made _),
      List.append_nil]
    exact hend

private theorem run_more (more : List (Rung custom ['e', 'l', 'i', 'f'])) (e : Tail custom) :
    (more.flatMap Rung.tokens ++ e.tokens).foldlM (step true custom)
        ⟨⟨line, .clause done f, before⟩ :: frames, b⟩ =
      .ok ⟨frames, ⟨line, .choice (done ++ (f, b.reverse) :: more.map fun r => r.clause.branch)
        e.otherwise⟩ :: before⟩ := by
  induction more generalizing done f b with
  | nil => exact run_tail hcustom e
  | cons r more ih =>
    have hread := Branch.read?_clause r.header.2.1
    rw [List.flatMap_cons, List.append_assoc, Rung.tokens, List.cons_append,
      run_said hcustom hread (step_clause r.header), run_append _ (run_ofTokens r.body.made _),
      ih, List.append_nil, List.reverse_reverse, List.append_assoc]
    rfl

end Words

end Assembly

namespace Ladder

open Assembly

theorem taken (l : Ladder custom) (a : Assembly) :
    l.tokens.foldlM (step true custom) a = .ok ⟨a.frames, l.segment :: a.current⟩ := by
  obtain ⟨r, more, e, hcustom⟩ := l
  have hread : Header.read? true custom r.tag.content.toList =
      Header.read? true [] r.tag.content.toList := by
    simp [Header.read?, Header.builtin?_choice r.header.2.1]
  have hstep := (step_builtin hread).trans (step_choice (a := a) r.header)
  rw [tokens, Rung.tokens, List.cons_append, run_cons _ hstep,
    run_append _ (run_ofTokens r.body.made _), openBlock, List.append_nil, run_more hcustom]
  simp [segment, clauses, Clause.branch, Rung.clause]

def alone (l : Ladder custom) : Body custom where
  tokens := l.tokens
  block := [l.segment]
  made := bind_eq_ok.mpr ⟨_, l.taken start, rfl⟩

/-- A ladder in which every further condition begins a choice inside a last block. The tag of that
block and the new one stand on the line of the old one, and every choice has a closing tag. -/
def nestFrom (tail : Tail custom)
    (unclaimed : ∀ tag ∈ custom, Branch.read? tag.name.toList = none) :
    Rung custom ['i', 'f'] → List (Rung custom ['e', 'l', 'i', 'f']) → Ladder custom
  | first, [] => ⟨first, [], tail, unclaimed⟩
  | first, r :: more =>
    let inner := nestFrom tail unclaimed r.beginning more
    ⟨first, [], ⟨some (r.otherwise, inner.alone), tail.ending, tail.closes⟩, unclaimed⟩

def nest (l : Ladder custom) : Ladder custom :=
  nestFrom l.tail l.unclaimed l.first l.more

end Ladder

private theorem Derives.rungs {line : Nat} {cs : List (Formula × Block)} {ts : List Token}
    (h : Derives (.clauses line cs) ts) :
    ∃ (first : Rung [] ['i', 'f']) (more : List (Rung [] ['e', 'l', 'i', 'f'])),
      first.tag.line = line ∧ cs = (first.clause :: more.map Rung.clause).map Clause.branch ∧
        ts = first.tokens ++ more.flatMap Rung.tokens := by
  generalize hp : Part.clauses line cs = p at h
  induction h generalizing line cs with
  | @first t f b ts hh hb =>
    cases hp
    exact ⟨⟨t, f, ⟨ts, b, Assembly.ofTokens_eq_ok.mpr hb⟩, hh⟩, [], rfl, rfl, by simp [Rung.tokens]⟩
  | @next line cs ts t f b us _ hh hb ih =>
    cases hp
    obtain ⟨first, more, hline, rfl, rfl⟩ := ih rfl
    let rung : Rung [] ['e', 'l', 'i', 'f'] := ⟨t, f, ⟨us, b, Assembly.ofTokens_eq_ok.mpr hb⟩, hh⟩
    refine ⟨first, more ++ [rung], hline, ?_, ?_⟩
    · simp [Clause.branch, Rung.clause, rung]
    · simp [Rung.tokens, rung]
  | _ => cases hp

/-- Every choice of a compiled template was written as a ladder. -/
theorem Derives.ladder {line : Nat} {clauses : List (Formula × Block)} {otherwise : Option Block}
    {ts : List Token} (h : Derives (.segment ⟨line, .choice clauses otherwise⟩) ts) :
    ∃ l : Ladder [], l.tokens = ts ∧ l.segment = ⟨line, .choice clauses otherwise⟩ := by
  cases h with
  | @choice _ _ _ t hc hend =>
    obtain ⟨first, more, rfl, rfl, rfl⟩ := hc.rungs
    exact ⟨⟨first, more, ⟨none, t, hend⟩, by simp⟩, by simp [Ladder.tokens, Tail.tokens], rfl⟩
  | @choiceElse _ _ _ t b us u hc helse hb hend =>
    obtain ⟨first, more, rfl, rfl, rfl⟩ := hc.rungs
    let last : Body [] := ⟨us, b, Assembly.ofTokens_eq_ok.mpr hb⟩
    exact ⟨⟨first, more, ⟨some (⟨t, helse⟩, last), u, hend⟩, by simp⟩,
      by simp [Ladder.tokens, Tail.tokens, last], rfl⟩

end Stencil
