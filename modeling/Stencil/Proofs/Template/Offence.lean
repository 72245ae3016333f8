import Stencil.Proofs.Template.Derivation
import Stencil.Proofs.Template.Window

/-!
# Offending tokens

What keeps a token from following others, and the blocks that tokens leave open. The error of
compiling a source is about the first token that cannot follow those before it, else about the tag
that opened the innermost block.
-/

namespace Stencil

inductive Header.Invalid : Header → SyntaxError → Prop where
  | choice {condition e} : Formula.parse (String.ofList condition) = .error e →
      Invalid (.choice condition) e
  | names {names items e} : Targets.parse (String.ofList names) = .error e →
      Invalid (.loop names items) e
  | items {names items targets e} : Targets.parse (String.ofList names) = .ok targets →
      Formula.parse (String.ofList items) = .error e → Invalid (.loop names items) e
  | insertion {target e} : Formula.parse (String.ofList target) = .error e →
      Invalid (.insertion target) e

/-- The tags that belong to an open block. -/
def Opening.Knows : Opening → List Char → Prop
  | .clause _ _, content => ∃ b : Branch, b.Form content
  | .otherwise _, content => ∃ b : Branch, b.Form content
  | .loop _ _ _, content => content = ['e', 'n', 'd', 'f', 'o', 'r']
  | .captured tag, content => content = tag.ending.toList

/-- Why a token cannot stand inside a block, or outside of all blocks. -/
inductive Refused : Option Opening → Token → SyntaxError → Prop where
  | expression {inside t e} : t.kind = .expression → Formula.parse t.content = .error e →
      Refused inside t e
  | header {inside t e} {h : Header} : t.kind = .block → h.Form t.content.toList → h.Invalid e →
      Refused inside t e
  | unknown {t} : t.kind = .block → (∀ h : Header, ¬ h.Form t.content.toList) →
      Refused none t (.unknownTag t.content)
  | stray {opening t} : t.kind = .block → (∀ h : Header, ¬ h.Form t.content.toList) →
      ¬ opening.Knows t.content.toList → Refused (some opening) t (.strayTag t.content)
  | clause {done f t condition e} : t.kind = .block →
      WordTag ['e', 'l', 'i', 'f'] condition t.content.toList →
      Formula.parse (String.ofList condition) = .error e → Refused (some (.clause done f)) t e
  | branchAfterElse {clauses t condition} : t.kind = .block →
      WordTag ['e', 'l', 'i', 'f'] condition t.content.toList →
      Refused (some (.otherwise clauses)) t .branchAfterElse
  | secondElse {clauses t} : t.IsWord ['e', 'l', 's', 'e'] →
      Refused (some (.otherwise clauses)) t .secondElse

def innermost (frames : List Frame) : Option Opening :=
  frames.head?.map Frame.opening

def Refuses (before : List Token) (t : Token) (e : SyntaxError) : Prop :=
  ∃ frames b, Held frames b before ∧ Refused (innermost frames) t e

def Clean (ts : List Token) : Prop :=
  ∀ before t after, ts = before ++ t :: after → ∀ e, ¬ Refuses before t e

/-- Tokens end inside a block: its tag, the blocks and branches of it that are complete, and a body
behind its latest branch. -/
def Unclosed (ts : List Token) (tag : Token) (e : SyntaxError) : Prop :=
  ∃ front rest body opening b, ts = front ++ tag :: rest ++ body ∧
    (∃ frames before, Held frames before front) ∧ Opened opening tag.line (tag :: rest) ∧
    Derives (.body b) body ∧ e = .unclosed opening.tags.1 opening.tags.2

/-- The token that the error of compiling tokens is about, and why. -/
def Offends (ts : List Token) (t : Token) (e : SyntaxError) : Prop :=
  (∃ before after, ts = before ++ t :: after ∧ Clean before ∧ Refuses before t e) ∨
    (Clean ts ∧ Unclosed ts t e)

private theorem Offends.mem {ts : List Token} {t : Token} {e : SyntaxError} (h : Offends ts t e) :
    t ∈ ts := by
  rcases h with ⟨before, after, rfl, -⟩ | ⟨-, front, rest, body, _, _, rfl, -⟩ <;> simp

private theorem Header.Form.unique {h h' : Header} {content : List Char} (hh : h.Form content)
    (hh' : h'.Form content) : h = h' :=
  Option.some.inj ((builtin?_iff.mpr hh).symm.trans (builtin?_iff.mpr hh'))

private theorem Branch.Form.unique {b b' : Branch} {content : List Char} (hb : b.Form content)
    (hb' : b'.Form content) : b = b' :=
  Option.some.inj ((read?_iff.mpr hb).symm.trans (read?_iff.mpr hb'))

section Refused

variable {inside : Option Opening} {t : Token} {e : SyntaxError}

private theorem refused_text (hk : t.kind = .text) : ¬ Refused inside t e := by
  intro h
  cases h <;> simp_all [Token.IsWord]

private theorem refused_expression (hk : t.kind = .expression) :
    Refused inside t e ↔ Formula.parse t.content = .error e := by
  refine ⟨fun h => ?_, .expression hk⟩
  cases h <;> simp_all [Token.IsWord]

private theorem refused_header {h : Header} (hk : t.kind = .block) (hh : h.Form t.content.toList) :
    Refused inside t e ↔ h.Invalid e := by
  have hhead : t.content.toList.head? ≠ some 'e' := fun he => Header.not_form he h hh
  refine ⟨fun hrefused => ?_, .header hk hh⟩
  cases hrefused with
  | expression hk' => simp_all
  | header _ hh' hinvalid => exact hh.unique hh' ▸ hinvalid
  | unknown _ hnone => exact absurd hh (hnone h)
  | stray _ hnone => exact absurd hh (hnone h)
  | clause _ hw => exact absurd (Branch.Form.clause hw).head hhead
  | branchAfterElse _ hw => exact absurd (Branch.Form.clause hw).head hhead
  | secondElse hw => exact absurd (by rw [hw.2]; rfl) hhead

section Headless

variable (hk : t.kind = .block) (hnone : ∀ h : Header, ¬ h.Form t.content.toList)
include hk hnone

private theorem refused_outside : Refused none t e ↔ e = .unknownTag t.content := by
  constructor
  · intro h
    cases h with
    | expression hk' => simp_all
    | header _ hh => exact absurd hh (hnone _)
    | unknown => rfl
  · rintro rfl
    exact .unknown hk hnone

private theorem refused_stray {opening : Opening} (hknows : ¬ opening.Knows t.content.toList) :
    Refused (some opening) t e ↔ e = .strayTag t.content := by
  constructor
  · intro h
    cases h with
    | expression hk' => simp_all
    | header _ hh => exact absurd hh (hnone _)
    | stray => rfl
    | clause _ hw => exact absurd ⟨_, .clause hw⟩ hknows
    | branchAfterElse _ hw => exact absurd ⟨_, .clause hw⟩ hknows
    | secondElse hw =>
      have hb : Branch.otherwise.Form t.content.toList := hw.2 ▸ .otherwise
      exact absurd ⟨_, hb⟩ hknows
  · rintro rfl
    exact .stray hk hnone hknows

private theorem not_refused_end {opening : Opening} (hknows : opening.Knows t.content.toList)
    (hclause : ∀ done f, opening ≠ .clause done f)
    (hotherwise : ∀ clauses, opening ≠ .otherwise clauses) :
    ¬ Refused (some opening) t e := by
  intro h
  cases h with
  | expression hk' => simp_all
  | header _ hh => exact absurd hh (hnone _)
  | stray _ _ hnot => exact hnot hknows
  | clause => exact hclause _ _ rfl
  | branchAfterElse => exact hotherwise _ rfl
  | secondElse => exact hotherwise _ rfl

end Headless

section Branch

variable {branch : Branch} (hk : t.kind = .block) (hb : branch.Form t.content.toList)
include hk hb

private theorem refused_clause {done : List (Formula × Block)} {f : Formula} :
    Refused (some (.clause done f)) t e ↔
      ∃ condition, branch = .clause condition ∧
        Formula.parse (String.ofList condition) = .error e := by
  constructor
  · intro h
    cases h with
    | expression hk' => simp_all
    | header _ hh => exact absurd hh (Header.not_form hb.head _)
    | stray _ _ hknows => exact absurd ⟨_, hb⟩ hknows
    | clause _ hw he => exact ⟨_, hb.unique (.clause hw), he⟩
  · rintro ⟨condition, rfl, he⟩
    cases hb with
    | clause hw => exact .clause hk hw he

private theorem refused_otherwise {clauses : List (Formula × Block)} :
    Refused (some (.otherwise clauses)) t e ↔
      (∃ condition, branch = .clause condition) ∧ e = .branchAfterElse ∨
        branch = .otherwise ∧ e = .secondElse := by
  constructor
  · intro h
    cases h with
    | expression hk' => simp_all
    | header _ hh => exact absurd hh (Header.not_form hb.head _)
    | stray _ _ hknows => exact absurd ⟨_, hb⟩ hknows
    | branchAfterElse _ hw => exact .inl ⟨⟨_, hb.unique (.clause hw)⟩, rfl⟩
    | secondElse hw => exact .inr ⟨hb.unique (hw.2 ▸ .otherwise), rfl⟩
  · rintro (⟨⟨condition, rfl⟩, rfl⟩ | ⟨rfl, rfl⟩)
    · cases hb with
      | clause hw => exact .branchAfterElse hk hw
    · generalize hw : t.content.toList = content at hb
      cases hb
      exact .secondElse ⟨hk, hw⟩

end Branch

end Refused

namespace Assembly

theorem onLine_eq_error {α : Type} {line : Nat} {r : Except SyntaxError α} {fault : Fault} :
    onLine line r = .error fault ↔ ∃ e, r = .error e ∧ fault = (e, line) := by
  cases r <;> simp [onLine, eq_comm]

theorem bind_eq_error {ε α β : Type} {x : Except ε α} {k : α → Except ε β} {e : ε} :
    (x >>= k) = .error e ↔ x = .error e ∨ ∃ a, x = .ok a ∧ k a = .error e := by
  cases x <;> simp [bind, Except.bind]

private theorem header_eq_error {a : Assembly} {t : Token} {h : Header} {content : List Char}
    (hh : h.Form content) {fault : Fault} :
    a.header t.line h = .error fault ↔ ∃ e, h.Invalid e ∧ fault = (e, t.line) := by
  cases hh with
  | choice =>
    simp only [header, bind_eq_error, formula, onLine_eq_error, pure, Except.pure, reduceCtorEq,
      and_false, exists_false, or_false]
    constructor
    · rintro ⟨e, he, rfl⟩
      exact ⟨e, .choice he, rfl⟩
    · rintro ⟨e, ⟨⟩, rfl⟩
      exact ⟨e, ‹_›, rfl⟩
  | loop =>
    simp only [header, bind_eq_error, formula, onLine_eq_error, onLine_eq_ok, pure, Except.pure,
      reduceCtorEq, and_false, exists_false, or_false]
    constructor
    · rintro (⟨e, he, rfl⟩ | ⟨targets, ht, e, he, rfl⟩)
      · exact ⟨e, .names he, rfl⟩
      · exact ⟨e, .items ht he, rfl⟩
    · rintro ⟨e, hinvalid, rfl⟩
      cases hinvalid with
      | names he => exact .inl ⟨e, he, rfl⟩
      | items ht he => exact .inr ⟨_, ht, e, he, rfl⟩
  | insertion =>
    simp only [header, bind_eq_error, formula, onLine_eq_error, pure, Except.pure, reduceCtorEq,
      and_false, exists_false, or_false]
    constructor
    · rintro ⟨e, he, rfl⟩
      exact ⟨e, .insertion he, rfl⟩
    · rintro ⟨e, ⟨⟩, rfl⟩
      exact ⟨e, ‹_›, rfl⟩

private theorem within_stray {frame : Frame} {frames : List Frame} {body : Block} {line : Nat}
    {content : List Char} (h : ¬ frame.opening.Knows content) :
    within frame frames body line content = .error (.strayTag (String.ofList content), line) := by
  obtain ⟨_, opening, _⟩ := frame
  have hnone : (¬ ∃ b : Branch, b.Form content) → Branch.read? content = none :=
    fun h => Option.eq_none_iff_forall_ne_some.mpr fun b hb => h ⟨b, Branch.read?_iff.mp hb⟩
  cases opening with
  | clause done f => simp only [within, hnone h]
  | otherwise clauses => simp only [within, hnone h]
  | loop targets unpack items =>
    have hne : content ≠ ['e', 'n', 'd', 'f', 'o', 'r'] := h
    simp only [within, if_neg hne]
  | captured tag =>
    have hne : content ≠ tag.ending.toList := h
    simp only [within, if_neg hne]

private theorem within_eq_error {frame : Frame} {frames : List Frame} {body : Block} {t : Token}
    (hk : t.kind = .block) (hnone : ∀ h : Header, ¬ h.Form t.content.toList) {fault : Fault} :
    within frame frames body t.line t.content.toList = .error fault ↔
      ∃ e, Refused (some frame.opening) t e ∧ fault = (e, t.line) := by
  by_cases hknows : frame.opening.Knows t.content.toList
  · obtain ⟨line, opening, before⟩ := frame
    cases opening with
    | clause done f =>
      obtain ⟨branch, hb⟩ := hknows
      simp only [within, Branch.read?_iff.mpr hb, refused_clause hk hb]
      cases branch with
      | clause condition =>
        simp [formula, bind_eq_error, onLine_eq_error, pure, Except.pure]
      | otherwise => simp
      | ending => simp
    | otherwise clauses =>
      obtain ⟨branch, hb⟩ := hknows
      simp only [within, Branch.read?_iff.mpr hb, refused_otherwise hk hb]
      cases branch <;> simp [eq_comm]
    | loop targets unpack items =>
      have hw : t.content.toList = ['e', 'n', 'd', 'f', 'o', 'r'] := hknows
      simp [within, hw, not_refused_end hk hnone hknows (by simp) (by simp)]
    | captured tag =>
      have hw : t.content.toList = tag.ending.toList := hknows
      simp [within, hw, not_refused_end hk hnone hknows (by simp) (by simp)]
  · -- A tag that the block does not know is stray, whatever the block is.
    rw [within_stray hknows, String.ofList_toList]
    simp [refused_stray hk hnone hknows, eq_comm]

/-- A token is taken in unless it is refused. -/
private theorem step_eq_error {a : Assembly} {t : Token} {fault : Fault} :
    step true [] a t = .error fault ↔
      ∃ e, Refused (innermost a.frames) t e ∧ fault = (e, t.line) := by
  obtain ⟨frames, b⟩ := a
  cases hk : t.kind with
  | text => simp [step, hk, refused_text hk]
  | expression =>
    simp [step, hk, refused_expression hk, bind_eq_error, onLine_eq_error, pure, Except.pure]
  | block =>
    simp only [step, hk, read?_builtin]
    cases hb : Header.builtin? t.content.toList with
    | some h =>
      have hh := Header.builtin?_iff.mp hb
      simp only [header_eq_error hh, refused_header hk hh]
    | none =>
      have hnone := Header.builtin?_eq_none_iff.mp hb
      cases frames with
      | nil => simp [innermost, refused_outside hk hnone, eq_comm]
      | cons frame frames => exact within_eq_error hk hnone

theorem foldlM_eq_error {α β ε : Type} {f : β → α → Except ε β} {b : β} {ts : List α} {e : ε} :
    ts.foldlM f b = .error e ↔ ∃ before t after b', ts = before ++ t :: after ∧
      before.foldlM f b = .ok b' ∧ f b' t = .error e := by
  constructor
  · intro h
    induction ts generalizing b with
    | nil => cases h
    | cons t ts ih =>
      rw [List.foldlM_cons] at h
      rcases bind_eq_error.mp h with h | ⟨b', hb', h⟩
      · exact ⟨[], t, ts, b, rfl, rfl, h⟩
      · obtain ⟨before, u, after, c, rfl, hrun, hstep⟩ := ih h
        refine ⟨t :: before, u, after, c, rfl, ?_, hstep⟩
        rw [List.foldlM_cons, hb']
        exact hrun
  · rintro ⟨before, t, after, b', rfl, hrun, hstep⟩
    rw [List.foldlM_append, hrun]
    show List.foldlM f b' (t :: after) = .error e
    rw [List.foldlM_cons, hstep]
    rfl

end Assembly

namespace Opened

open Assembly in
private theorem taken {opening : Opening} {line : Nat} {ts : List Token}
    (h : Opened opening line ts) (a : Assembly) :
    ts.foldlM (step true []) a = .ok ⟨⟨line, opening, a.current⟩ :: a.frames, []⟩ := by
  cases h with
  | choice hh =>
    rw [run_cons [] (step_choice hh)]
    rfl
  | clause hc hh =>
    obtain ⟨done, f, b, rfl, hrun⟩ := hc.taken
    rw [run_append _ (hrun a), run_cons [] (step_clause hh), List.reverse_reverse]
    rfl
  | otherwise hc he =>
    obtain ⟨done, f, b, rfl, hrun⟩ := hc.taken
    rw [run_append _ (hrun a), run_cons [] (step_otherwise he), List.reverse_reverse]
    rfl
  | loop hl =>
    rw [run_cons [] (step_loop hl)]
    rfl

private theorem clauses_head {line : Nat} {cs : List (Formula × Block)} {ts : List Token}
    (h : Derives (.clauses line cs) ts) : ∃ tag rest, ts = tag :: rest ∧ tag.line = line := by
  generalize hp : Part.clauses line cs = p at h
  -- The line stays that of the first clause, which is the deepest in the derivation.
  induction h generalizing cs with
  | first => cases hp; exact ⟨_, _, rfl, rfl⟩
  | next _ _ _ ih =>
    cases hp
    obtain ⟨tag, rest, rfl, hline⟩ := ih rfl
    exact ⟨tag, _, rfl, hline⟩
  | _ => cases hp

private theorem head {opening : Opening} {line : Nat} {ts : List Token}
    (h : Opened opening line ts) :
    ∃ tag rest, ts = tag :: rest ∧ tag.line = line := by
  cases h with
  | choice => exact ⟨_, [], rfl, rfl⟩
  | loop => exact ⟨_, [], rfl, rfl⟩
  | clause hc =>
    obtain ⟨tag, rest, rfl, hline⟩ := clauses_head hc
    exact ⟨tag, _, rfl, hline⟩
  | otherwise hc =>
    obtain ⟨tag, rest, rfl, hline⟩ := clauses_head hc
    exact ⟨tag, _, rfl, hline⟩

end Opened

namespace Assembly

/-- Tokens are taken in exactly if they are held, as what they are held as. -/
private theorem run_eq_ok {ts : List Token} {a : Assembly} :
    ts.foldlM (step true []) start = .ok a ↔ Held a.frames a.current ts := by
  constructor
  · intro h
    exact run_held (a := start) (Held.body Derives.empty) h
  · obtain ⟨frames, b⟩ := a
    intro h
    dsimp only at h
    induction h with
    | body hb => simpa [start] using hb.taken start
    | block _ ho hb ih =>
      rw [List.append_assoc, run_append _ ih, run_append _ (ho.taken _), hb.taken]
      simp

private theorem run_eq_error {ts : List Token} {fault : Fault} :
    ts.foldlM (step true []) start = .error fault ↔ ∃ before t after e,
      ts = before ++ t :: after ∧ Refuses before t e ∧ fault = (e, t.line) := by
  constructor
  · intro h
    obtain ⟨before, t, after, a, hts, hrun, hstep⟩ := foldlM_eq_error.mp h
    obtain ⟨e, hrefused, rfl⟩ := step_eq_error.mp hstep
    exact ⟨before, t, after, e, hts, ⟨a.frames, a.current, run_eq_ok.mp hrun, hrefused⟩, rfl⟩
  · rintro ⟨before, t, after, e, hts, ⟨frames, b, hheld, hrefused⟩, rfl⟩
    have hrun : before.foldlM (step true []) start = .ok ⟨frames, b⟩ := run_eq_ok.mpr hheld
    exact foldlM_eq_error.mpr
      ⟨before, t, after, _, hts, hrun, step_eq_error.mpr ⟨e, hrefused, rfl⟩⟩

private theorem clean_iff {ts : List Token} : Clean ts ↔ ∃ frames b, Held frames b ts := by
  constructor
  · intro hclean
    cases hrun : ts.foldlM (step true []) start with
    | ok a => exact ⟨a.frames, a.current, run_eq_ok.mp hrun⟩
    | error fault =>
      obtain ⟨before, t, after, e, hts, hrefuses, -⟩ := run_eq_error.mp hrun
      exact absurd hrefuses (hclean before t after hts e)
  · rintro ⟨frames, b, hheld⟩ before t after hts e hrefuses
    have hok : ts.foldlM (step true []) start = .ok ⟨frames, b⟩ := run_eq_ok.mpr hheld
    have herror := run_eq_error.mpr ⟨before, t, after, e, hts, hrefuses, rfl⟩
    rw [hok] at herror
    cases herror

end Assembly

private theorem Refuses.clean {before : List Token} {t : Token} {e : SyntaxError}
    (h : Refuses before t e) : Clean before := by
  obtain ⟨frames, b, hheld, -⟩ := h
  exact Assembly.clean_iff.mpr ⟨frames, b, hheld⟩

namespace Assembly

private theorem finish_eq_error {a : Assembly} {ts : List Token}
    (hheld : Held a.frames a.current ts) {fault : Fault} :
    a.finish = .error fault ↔ ∃ tag e, Unclosed ts tag e ∧ fault = (e, tag.line) := by
  constructor
  · intro h
    obtain ⟨frames, b⟩ := a
    cases hheld with
    | body => cases h
    | @block line opening before frames _ front us body hf ho hb =>
      cases h
      obtain ⟨tag, rest, rfl, rfl⟩ := ho.head
      exact ⟨tag, _, ⟨front, rest, body, opening, _, rfl, ⟨frames, before, hf⟩, ho, hb, rfl⟩, rfl⟩
  · rintro ⟨tag, e, ⟨front, rest, body, opening, b, rfl, ⟨frames, before, hf⟩, ho, hb, rfl⟩, rfl⟩
    have hb' : Derives (.body b.reverse.reverse) body := by rwa [List.reverse_reverse]
    have hsame := (run_eq_ok.mpr hheld).symm.trans
      (run_eq_ok (a := ⟨_, _⟩).mpr (Held.block hf ho hb'))
    cases hsame
    rfl

private theorem ofTokens_eq_error {ts : List Token} {fault : Fault} :
    ofTokens true [] ts = .error fault ↔ ∃ t e, Offends ts t e ∧ fault = (e, t.line) := by
  rw [ofTokens, bind_eq_error]
  constructor
  · rintro (hrun | ⟨a, hrun, hfinish⟩)
    · obtain ⟨before, t, after, e, hts, hrefuses, hfault⟩ := run_eq_error.mp hrun
      exact ⟨t, e, .inl ⟨before, after, hts, hrefuses.clean, hrefuses⟩, hfault⟩
    · have hheld := run_eq_ok.mp hrun
      obtain ⟨tag, e, hunclosed, hfault⟩ := (finish_eq_error hheld).mp hfinish
      exact ⟨tag, e, .inr ⟨clean_iff.mpr ⟨_, _, hheld⟩, hunclosed⟩, hfault⟩
  · rintro ⟨t, e, ⟨before, after, hts, -, hrefuses⟩ | ⟨hclean, hunclosed⟩, hfault⟩
    · exact .inl (run_eq_error.mpr ⟨before, t, after, e, hts, hrefuses, hfault⟩)
    · obtain ⟨frames, b, hheld⟩ := clean_iff.mp hclean
      exact .inr ⟨⟨frames, b⟩, run_eq_ok.mpr hheld,
        (finish_eq_error hheld).mpr ⟨t, e, hunclosed, hfault⟩⟩

end Assembly

/-- Tokens that say the same on the same line. -/
def Token.Agrees (t u : Token) : Prop :=
  t.line = u.line ∧ t.kind = u.kind ∧ t.content = u.content

namespace Assembly

private theorem step_agrees {t u : Token} (h : t.Agrees u) (a : Assembly) :
    step true [] a t = step true [] a u := by
  obtain ⟨hl, hk, hc⟩ := h
  simp only [step, hl, hk, hc]

private theorem run_agrees {ts us : List Token} (h : List.Forall₂ Token.Agrees ts us)
    (a : Assembly) :
    ts.foldlM (step true []) a = us.foldlM (step true []) a := by
  induction h generalizing a with
  | nil => rfl
  | cons ht _ ih =>
    rw [List.foldlM_cons, List.foldlM_cons, step_agrees ht]
    exact bind_congr ih

end Assembly

private theorem Refuses.agrees {before before' : List Token} {t t' : Token} {e : SyntaxError}
    (h : Refuses before t e) (hts : List.Forall₂ Token.Agrees (before ++ [t]) (before' ++ [t'])) :
    Refuses before' t' e ∧ t'.line = t.line := by
  obtain ⟨frames, b, hheld, hrefused⟩ := h
  obtain ⟨ht, hbefore⟩ : t.Agrees t' ∧ List.Forall₂ Token.Agrees before before' := by
    simpa using List.forall₂_reverse_iff.mpr hts
  have hrun : before.foldlM (Assembly.step true []) Assembly.start = .ok ⟨frames, b⟩ :=
    Assembly.run_eq_ok.mpr hheld
  rw [Assembly.run_agrees hbefore] at hrun
  have hstep : Assembly.step true [] ⟨frames, b⟩ t = .error (e, t.line) :=
    Assembly.step_eq_error.mpr ⟨e, hrefused, rfl⟩
  rw [Assembly.step_agrees ht] at hstep
  obtain ⟨e', hrefused', hsame⟩ := Assembly.step_eq_error.mp hstep
  obtain ⟨rfl, -⟩ := Prod.mk.inj hsame
  exact ⟨⟨frames, b, Assembly.run_eq_ok.mp hrun, hrefused'⟩, ht.1.symm⟩

namespace Dialect

private theorem compile_eq_error {delimiters : Delimiters} {escapes : EscapeTable}
    {source name : String}
    {defaults : Dict Value} {m : Metadata Value} {serial : Nat} {e : TemplateError} :
    (⟨delimiters, true, [], escapes⟩ : Dialect).compile source name defaults m serial = .error e ↔
      ∃ t fault, Offends (Token.scan delimiters source) t fault ∧
        e = .compile fault.message name t.line (some (Snippet.around source t.line)) := by
  simp only [compile, assemble, tokens, Assembly.bind_eq_error, pure, Except.pure, reduceCtorEq,
    and_false, exists_false, or_false]
  cases h : Assembly.ofTokens true [] (Token.scan delimiters source) with
  | ok body =>
    simp only [reduceCtorEq, false_iff]
    rintro ⟨t, fault, hoffends, -⟩
    have herror := Assembly.ofTokens_eq_error.mpr ⟨t, fault, hoffends, rfl⟩
    rw [h] at herror
    cases herror
  | error failure =>
    obtain ⟨t, fault, hoffends, rfl⟩ := Assembly.ofTokens_eq_error.mp h
    constructor
    · rintro ⟨rfl⟩
      exact ⟨t, fault, hoffends, rfl⟩
    · rintro ⟨u, fault', hoffends', rfl⟩
      have hother := Assembly.ofTokens_eq_error.mpr ⟨u, fault', hoffends', rfl⟩
      rw [h] at hother
      obtain ⟨rfl, hline⟩ := Prod.mk.inj (Except.error.inj hother)
      rw [← hline]
      rfl

/-- The error of compiling a source is about its offending token: the first that cannot follow
those before it, else the tag of the innermost open block. The snippet it carries has the lines of
the source around the token's line. An error of the first kind is the same in every source that
agrees so far. -/
theorem compile_error_iff (delimiters : Delimiters) (escapes : EscapeTable)
    (source name : String) (defaults : Dict Value) (m : Metadata Value) (serial : Nat) :
    let d : Dialect := ⟨delimiters, true, [], escapes⟩
    (∀ e, d.compile source name defaults m serial = .error e ↔
      ∃ t fault, Offends (d.tokens source) t fault ∧
        e = .compile fault.message name t.line (some (Snippet.around source t.line))) ∧
    (∀ t fault, Offends (d.tokens source) t fault →
      t ∈ d.tokens source ∧ (Snippet.around source t.line).Shows source t.line) ∧
    ∀ before t after fault, d.tokens source = before ++ t :: after → Refuses before t fault →
      ∀ source' before' t' after', d.tokens source' = before' ++ t' :: after' →
        List.Forall₂ Token.Agrees (before ++ [t]) (before' ++ [t']) →
        ∀ name' defaults' m' serial', d.compile source' name' defaults' m' serial' =
            .error (.compile fault.message name' t.line (some (Snippet.around source' t.line))) ∧
          (Snippet.around source' t.line).Shows source' t.line := by
  intro d
  have hshows : ∀ {source t}, t ∈ d.tokens source →
      (Snippet.around source t.line).Shows source t.line := by
    intro source t ht
    obtain ⟨before, text, hlineOf, hline⟩ := Token.scan_lineOf ht
    exact Snippet.around_shows hlineOf hline
  refine ⟨fun e => compile_eq_error, fun t fault h => ⟨h.mem, hshows h.mem⟩, ?_⟩
  intro before t after fault _ hrefuses source' before' t' after' hts' hagrees name' defaults' m'
    serial'
  obtain ⟨hrefuses', hline⟩ := hrefuses.agrees hagrees
  rw [← hline]
  refine ⟨compile_eq_error.mpr ?_, hshows (by simp [hts'])⟩
  exact ⟨t', fault, .inl ⟨before', after', hts', hrefuses'.clean, hrefuses'⟩, rfl⟩

theorem compile_error_endif :
    let t : Token := ⟨1, .block, "endif", 0, 11⟩
    let source := "\x7b% endif %\x7d\x7b\x7b x\n"
    Refuses [] t (.unknownTag "endif") ∧
      Dialect.standard.compile source "a" [] (.named "a") 0 =
        .error (.compile "\x7b% endif %\x7d is not a recognized tag." "a" 1
          (some (.around source 1))) ∧
      (Snippet.around source 1).Shows source 1 ∧
      (Snippet.around source 1).window = [(1, "\x7b% endif %\x7d\x7b\x7b x")] := by
  intro t source
  have hrefuses : Refuses [] t (.unknownTag "endif") :=
    ⟨[], [], .body .empty, .unknown rfl (Header.not_form (by decide +kernel))⟩
  have hsource : Token.scan .standard source = [t, ⟨1, .text, "\x7b\x7b x\n", 11, 16⟩] := by
    decide +kernel
  have h := compile_error_iff .standard .standard "\x7b% endif %\x7d" "b" [] (.named "b") 0
  obtain ⟨herror, hshows⟩ := h.2.2 [] t [] _ rfl hrefuses source [] t _ hsource
    (.cons ⟨rfl, rfl, rfl⟩ .nil) "a" [] (.named "a") 0
  exact ⟨hrefuses, herror, hshows, by decide +kernel⟩

example :
    Dialect.standard.compile "\x7b% for x in xs %\x7d\n\x7b% if x %\x7d" "a" [] (.named "a") 0 =
    .error (.compile "if tag could not find a corresponding endif" "a" 2
      (some (.around "\x7b% for x in xs %\x7d\n\x7b% if x %\x7d" 2))) := by rfl

end Dialect

end Stencil
