import Stencil.Expr.Targets
import Stencil.Proofs.Expr.Cutting
import Stencil.Proofs.Expr.Grammar

/-!
# Viable prefixes

Whatever has been read can be completed: an operand where one is expected, and then what ends the
constructs begun, the innermost first. A text that is refused is therefore wrong no earlier than
where the error says.
-/

namespace Stencil

namespace Expr

namespace Reading

/-- Whether the constructs begun can be ended one after another: a conditional stands where whole
expressions do. -/
private def closable : List Hole → Bool
  | [] => true
  | .condition _ :: holes => admits holes && closable holes
  | .otherwise _ _ :: holes => admits holes && closable holes
  | _ :: holes => closable holes

private theorem closable_settle {holes inner : List Hole} {e e' : Expr}
    (hs : settle holes e = some (inner, e')) (h : closable holes = true) :
    closable inner = true := by
  induction holes generalizing e with
  | nil =>
    cases hs
    rfl
  | cons hole holes ih =>
    cases hole with
    | otherwise value condition => exact ih hs (Bool.and_eq_true_iff.mp h).2
    | condition value => cases hs
    | _ =>
      cases hs
      exact h

private theorem closable_beginOperand {holes : List Hole} {p : Pending} {l : Lexeme} {r : Reading}
    (hr : beginOperand holes p l = some r) (h : closable holes = true) :
    closable r.holes = true := by
  unfold beginOperand at hr
  split at hr <;> cases hr <;> exact h

private theorem closable_endEmpty {holes : List Hole} {l : Lexeme} {r : Reading}
    (hr : endEmpty holes l = some r) (h : closable holes = true) : closable r.holes = true := by
  unfold endEmpty at hr
  split at hr <;> cases hr <;> exact h

private theorem closable_endItem {e : Expr} {holes : List Hole} {l : Lexeme} {r : Reading}
    (hr : endItem e holes l = some r) (h : closable holes = true) : closable r.holes = true := by
  unfold endItem at hr
  split at hr <;> cases hr <;> exact h

private theorem closable_afterOperand {holes : List Hole} {p : Pending} {e : Expr} {l : Lexeme}
    {r : Reading} (hr : afterOperand holes p e l = some r) (h : closable holes = true) :
    closable r.holes = true := by
  unfold afterOperand at hr
  split at hr
  · cases hr
    exact h
  · split at hr
    · cases hr
      exact h
    · cases hr
      exact h
    · cases hr
      exact h
    · cases hr
    · next hcondition =>
      cases hr
      have hadmits : admits holes = true := by
        unfold admits
        split
        · exact (hcondition _ _ rfl).elim
        · rfl
      exact Bool.and_eq_true_iff.mpr ⟨hadmits, h⟩
    · cases hr
      exact h
    · split at hr
      · next hsettle => exact closable_endItem hr (closable_settle hsettle h)
      · cases hr

/-- Every lexeme that is read leaves the constructs such that they can be ended. -/
private theorem closable_next? {r r' : Reading} {l : Lexeme} (hr : r.next? l = some r')
    (h : closable r.holes = true) : closable r'.holes = true := by
  unfold next? at hr
  split at hr
  · split at hr
    · next hbegin =>
      cases hr
      exact closable_beginOperand hbegin h
    · split at hr
      · exact closable_endEmpty hr h
      · cases hr
  · exact closable_afterOperand hr h
  · split at hr
    · cases hr
      exact h
    · cases hr

private theorem Reads.closable {r r' : Reading} {ls : List Lexeme} (hr : r.Reads ls r')
    (h : closable r.holes = true) : Reading.closable r'.holes = true := by
  induction ls generalizing r with
  | nil =>
    cases hr
    exact h
  | cons l ls ih =>
    rw [Reads, List.foldlM_cons] at hr
    obtain ⟨m, hm, hrest⟩ := Option.bind_eq_some_iff.mp hr
    exact ih hrest (closable_next? hm h)

def ender : Lexeme → Bool
  | .name n => n = "x"
  | .elseWord | .closeParen | .closeSquare | .closeBrace | .colon => true
  | _ => false

def Completable (r : Reading) : Prop :=
  ∃ ls r' e, (∀ l ∈ ls, ender l = true) ∧ r.Reads ls r' ∧ r'.finish? = some e

private theorem Completable.of_next? {r m : Reading} {l : Lexeme} (hl : ender l = true)
    (hr : r.next? l = some m) (h : m.Completable) : r.Completable := by
  obtain ⟨ls, r', e, hls, hreads, hfinish⟩ := h
  exact ⟨l :: ls, r', e, List.forall_mem_cons.mpr ⟨hl, hls⟩, .cons hr hreads, hfinish⟩

private theorem Completable.of_endItem {inner holes : List Hole} {p : Pending} {e e' : Expr}
    {l : Lexeme} {m : Reading} (hl : ender l = true) (hends : ends l = true)
    (hs : settle inner (p.close e) = some (holes, e')) (hm : endItem e' holes l = some m)
    (h : m.Completable) : Completable ⟨inner, p, .after e⟩ := by
  refine .of_next? hl ?_ h
  rw [next?_ends hends, hs]
  exact hm

/-- Behind an operand, ending the conditionals that stand there leaves constructs that are ended one
after another, the innermost first. -/
private theorem completable_after {holes : List Hole} (hc : closable holes = true) :
    ∀ {inner : List Hole} {p : Pending} {e e' : Expr},
      settle inner (p.close e) = settle holes e' → (admits holes = true ∨ inner = holes) →
        Completable ⟨inner, p, .after e⟩ := by
  -- Every construct is ended by a lexeme of its own, and then the next one around it is.
  induction holes with
  | nil =>
    intro inner p e e' hs _
    refine ⟨[], _, e', by simp, .nil _, ?_⟩
    simp only [finish?, hs]
    rfl
  | cons hole holes ih =>
    intro inner p e e' hs ha
    have houter : ∀ (p : Pending) (e : Expr), closable holes = true →
        Completable ⟨holes, p, .after e⟩ := fun p e h => ih h rfl (.inr rfl)
    cases hole with
    | condition value =>
      obtain rfl : inner = .condition value :: holes := ha.resolve_left Bool.false_ne_true
      obtain ⟨hadmits, hclosable⟩ := Bool.and_eq_true_iff.mp hc
      refine .of_next? (l := .elseWord) rfl rfl (.of_next? (l := .name "x") rfl rfl ?_)
      exact ih hclosable (Eq.refl (settle holes (.choice (p.close e) value (.name "x"))))
        (.inl hadmits)
    | otherwise value condition =>
      obtain ⟨hadmits, hclosable⟩ := Bool.and_eq_true_iff.mp hc
      exact ih hclosable hs (.inl hadmits)
    | key outer entries =>
      refine .of_endItem (l := .colon) rfl rfl hs rfl (.of_next? (l := .name "x") rfl rfl ?_)
      exact .of_endItem (l := .closeBrace) rfl rfl rfl rfl (houter _ _ hc)
    | value outer entries key =>
      exact .of_endItem (l := .closeBrace) rfl rfl hs rfl (houter _ _ hc)
    | list outer items => exact .of_endItem (l := .closeSquare) rfl rfl hs rfl (houter _ _ hc)
    | subscript outer target =>
      exact .of_endItem (l := .closeSquare) rfl rfl hs rfl (houter _ _ hc)
    | upper outer target lower =>
      exact .of_endItem (l := .closeSquare) rfl rfl hs rfl (houter _ _ hc)
    | group outer => exact .of_endItem (l := .closeParen) rfl rfl hs rfl (houter _ _ hc)
    | tuple outer items => exact .of_endItem (l := .closeParen) rfl rfl hs rfl (houter _ _ hc)
    | args outer callee items =>
      exact .of_endItem (l := .closeParen) rfl rfl hs rfl (houter _ _ hc)

private theorem completable {r : Reading} (h : closable r.holes = true) : r.Completable := by
  obtain ⟨holes, p, focus⟩ := r
  cases focus with
  | operand =>
    exact .of_next? (l := .name "x") rfl rfl (completable_after h rfl (.inr rfl))
  | after e => exact completable_after h rfl (.inr rfl)
  | member target =>
    exact .of_next? (l := .name "x") rfl rfl (completable_after h rfl (.inr rfl))

private theorem next?_stray (r : Reading) : r.next? .stray = none := by
  obtain ⟨holes, p, focus⟩ := r
  cases focus with
  | operand =>
    have hempty : endEmpty holes .stray = none := by
      cases holes with
      | nil => rfl
      | cons hole holes => cases hole <;> rfl
    simp only [next?, beginOperand, hempty, ite_self]
  | after e =>
    have hitem : ∀ holes e, endItem e holes .stray = none := by
      intro holes e
      cases holes with
      | nil => rfl
      | cons hole holes => cases hole <;> rfl
    simp only [next?, afterOperand, operator?]
    split
    · exact hitem _ _
    · rfl
  | member target => rfl

private theorem reads_of_foldlM {r r' : Reading} {ls : List (Lexeme × Nat)}
    (h : ls.foldlM step r = .ok r') : r.Reads (ls.map (·.1)) r' := by
  induction ls generalizing r with
  | nil =>
    cases h
    exact .nil _
  | cons l ls ih =>
    rw [List.foldlM_cons] at h
    cases hstep : r.step l with
    | error place =>
      rw [hstep] at h
      cases h
    | ok m =>
      rw [hstep] at h
      exact .cons (step_eq_ok.mp hstep) (ih h)

private theorem Reads.no_stray {r r' : Reading} {ls : List Lexeme} (h : r.Reads ls r') :
    ∀ l ∈ ls, l ≠ .stray := by
  induction ls generalizing r with
  | nil => exact fun _ hl => by cases hl
  | cons l ls ih =>
    rw [Reads, List.foldlM_cons] at h
    obtain ⟨m, hm, hrest⟩ := Option.bind_eq_some_iff.mp h
    refine List.forall_mem_cons.mpr ⟨?_, ih hrest⟩
    rintro rfl
    rw [next?_stray] at hm
    cases hm

private theorem step_error {r : Reading} {l : Lexeme × Nat} {place : Nat}
    (h : r.step l = .error place) :
    place = l.2 ∨ l.1 = .notWithin place ∧ r.focus = .operand := by
  obtain ⟨holes, p, focus⟩ := r
  obtain ⟨l, q⟩ := l
  simp only [step] at h
  split at h
  · cases h
  · split at h
    · cases h
      exact .inr ⟨rfl, rfl⟩
    · cases h
      exact .inl rfl

private theorem foldlM_error {r : Reading} {ls : List (Lexeme × Nat)} {place : Nat}
    (h : ls.foldlM step r = .error place) :
    ∃ before l behind m, ls = before ++ l :: behind ∧ before.foldlM step r = .ok m ∧
      m.step l = .error place := by
  induction ls generalizing r with
  | nil => cases h
  | cons l ls ih =>
    rw [List.foldlM_cons] at h
    cases hstep : r.step l with
    | error q =>
      rw [hstep] at h
      cases h
      exact ⟨[], l, ls, r, rfl, rfl, hstep⟩
    | ok next =>
      rw [hstep] at h
      obtain ⟨before, refused, behind, m, rfl, hbefore, hm⟩ := ih h
      refine ⟨l :: before, refused, behind, m, rfl, ?_, hm⟩
      rw [List.foldlM_cons, hstep]
      exact hbefore

end Reading

open Lexeme Reading

section Enders

variable {ls : List Lexeme} (h : ∀ l ∈ ls, ender l = true)
include h

private theorem enders_sound : ∀ l ∈ ls, l.Sound := by
  intro l hl
  have hender := h l hl
  cases l with
  | name n =>
    have hn : n = "x" := of_decide_eq_true hender
    exact ⟨'x', [], by rw [hn]; rfl, rfl, by simp, by rw [hn]; decide⟩
  | _ => trivial

private theorem enders_chain : ls.IsChain MayPrecede := by
  induction ls with
  | nil => exact .nil
  | cons l ls ih =>
    obtain ⟨hl, hls⟩ := List.forall_mem_cons.mp h
    refine List.isChain_cons.mpr ⟨fun m _ => ?_, ih hls⟩
    cases l <;> trivial

private theorem enders_nextWord : ∀ k ∈ ["not", "in"],
    nextWord ((ls.flatMap spelling).flatMap (' ' :: ·)) ≠ k := by
  have hsign : ∀ (c : Char) (rest : List Char), isGap c = false → inName c = false →
      ∀ k ∈ ["not", "in"], nextWord ([' '] ++ c :: rest) ≠ k := by
    intro c rest hgap hc
    rw [nextWord_gap _ gap_space, nextWord_other rest hgap hc]
    decide
  cases ls with
  | nil => decide
  | cons l ls =>
    have hl := h l List.mem_cons_self
    have hquiet := quiet_spaced (ls.flatMap spelling)
    rw [List.flatMap_cons, List.flatMap_append]
    have hword : ∀ {c : Char} {t : List Char}, (∀ d ∈ c :: t, inName d = true) →
        nextWord ([' '] ++ (c :: t ++ (ls.flatMap spelling).flatMap (' ' :: ·))) =
          String.ofList (c :: t) := by
      intro c t ht
      rw [nextWord_gap _ gap_space, nextWord_word ht]
      rintro _ - d hd ⟨-, hin⟩
      rw [hquiet d hd] at hin
      cases hin
    cases l with
    | name n =>
      have hn : n = "x" := of_decide_eq_true hl
      subst hn
      change ∀ k ∈ _, nextWord ([' '] ++ (['x'] ++ (ls.flatMap spelling).flatMap _)) ≠ k
      rw [hword (List.all_eq_true.mp rfl)]
      decide
    | elseWord =>
      change ∀ k ∈ _,
        nextWord ([' '] ++ (['e', 'l', 's', 'e'] ++ (ls.flatMap spelling).flatMap _)) ≠ k
      rw [hword (List.all_eq_true.mp rfl)]
      decide
    | closeParen => exact hsign ')' _ rfl rfl
    | closeSquare => exact hsign ']' _ rfl rfl
    | closeBrace => exact hsign '\x7d' _ rfl rfl
    | colon => exact hsign ':' _ rfl rfl
    | _ => cases hl

end Enders

private theorem scan_exchange {front rest rest' : List Char} {found : List (Lexeme × Nat)}
    {ls : List Lexeme} (ht : Takes rest 0 front found)
    (hstray : ∀ l ∈ found.foldr joinText [], l.1 ≠ .stray) (he : Exchange rest rest')
    (hs : ∀ l ∈ ls, l.Sound) (hc : ls.IsChain MayPrecede) (htext : ∀ l ∈ ls.head?, l.isText = false)
    (hl : Layout (ls.flatMap spelling) rest') :
    ∃ more, scan (front ++ rest') = found.foldr joinText [] ++ more ∧
      more.map (fun l => l.1.shape) = ls := by
  have hfound : ∀ l ∈ found, l.1 ≠ .stray := fun l hl hl' =>
    hstray l (mem_foldr_joinText hl (by rw [hl']; rfl)) hl'
  have hshape := scanFrom_layout (0 + front.length) hs hc hl
  refine ⟨scanFrom (0 + front.length) 0 rest', ?_, hshape⟩
  rw [scan, (ht.exchange he hfound).scanFrom, List.foldr_append,
    joinText_chain (by rw [hshape]; exact hc)]
  refine foldr_joinText_append found fun m hm => ?_
  have hsame : ∀ l : Lexeme, l.shape.isText = l.isText := by
    intro l
    cases l <;> rfl
  rw [← hsame]
  refine htext _ ?_
  rw [← hshape, List.head?_map, hm]
  rfl

/-- Lexemes that end expressions may be put behind any cut, with spaces before them. -/
private theorem scan_enders {front rest : List Char} {found : List (Lexeme × Nat)}
    {ls : List Lexeme}
    (ht : Takes rest 0 front found) (hstray : ∀ l ∈ found.foldr joinText [], l.1 ≠ .stray)
    (h : ∀ l ∈ ls, ender l = true) :
    ∃ tail more, scan (front ++ tail) = found.foldr joinText [] ++ more ∧
      more.map (fun l => l.1.shape) = ls := by
  have he : Exchange rest ([' '] ++ (ls.flatMap spelling).flatMap (' ' :: ·)) := by
    refine ⟨.inl rfl, fun k hk hnext => ?_⟩
    rw [nextWord_gap _ gap_space] at hnext
    exact absurd hnext (enders_nextWord h k hk)
  have htext : ∀ l ∈ ls.head?, l.isText = false := by
    intro l hl
    have hl := h l (List.mem_of_head? hl)
    cases l <;> first | rfl | cases hl
  obtain ⟨more, hscan, hmore⟩ := scan_exchange ht hstray he (enders_sound h) (enders_chain h) htext
    (Layout.gap gap_space (.spaced _))
  exact ⟨_, more, hscan, hmore⟩

/-- What is wrong with a text shows no earlier than at a place: the part in front of it can be
extended to a text that is accepted. -/
def ViableTo (accepts : List Char → Prop) (cs : List Char) (place : Nat) : Prop :=
  place ≤ cs.length ∧ ∃ tail, accepts (cs.take place ++ tail)

private theorem viableTo_append {accepts : List Char → Prop} {front : List Char} (back : List Char)
    (h : ∃ tail, accepts (front ++ tail)) : ViableTo accepts (front ++ back) front.length := by
  refine ⟨by rw [List.length_append]; exact Nat.le_add_right _ _, ?_⟩
  rwa [List.take_left]

private theorem scan_split {cs : List Char} {before behind : List (Lexeme × Nat)} {l : Lexeme}
    {place : Nat} (h : scan cs = before ++ (l, place) :: behind) :
    ∃ front w rest found found', cs = front ++ (w ++ rest) ∧ place = front.length ∧
      Takes (w ++ rest) 0 front found ∧ found.foldr joinText [] = before ∧
      Found place w rest found' ∧ (l.isText = false → found' = l) := by
  obtain ⟨found, found', back, hscan, hfound, htext⟩ := foldr_joinText_split h
  have hall := takes_all 0 cs
  rw [hscan] at hall
  obtain ⟨front, w, rest, rfl, htakes, rfl, hw⟩ := hall.split
  rw [List.append_nil] at htakes hw
  exact ⟨front, w, rest, found, found', rfl, Nat.zero_add _, htakes, hfound, hw, htext⟩

/-- The grammar takes a text. Its integers may still be too large. -/
def Accepts (cs : List Char) : Prop :=
  ∃ e, ofLexemes (scan cs) cs.length = .ok e

theorem accepts_iff {cs : List Char} :
    Accepts cs ↔ ∀ shown col, parse (String.ofList cs) ≠ .error (.expression shown col) := by
  simp only [Accepts, parse, String.toList_ofList]
  cases ofLexemes (scan cs) cs.length with
  | error place => simp
  | ok e => cases oversized? (scan cs) <;> simp

private theorem accepts_of_reads {cs : List Char} {before more : List (Lexeme × Nat)}
    {r r' : Reading}
    {e : Expr} (hscan : scan cs = before ++ more) (hr : before.foldlM step .start = .ok r)
    (hreads : r.Reads (more.map fun l => l.1.shape) r') (hf : r'.finish? = some e) :
    Accepts cs := by
  have hread : (scan cs).foldlM step .start = .ok r' := by
    rw [hscan, List.foldlM_append, hr]
    exact foldlM_step hreads
  refine ⟨e, ?_⟩
  rw [ofLexemes, hread]
  simp only [bind, Except.bind, hf]

section Cut

variable {front rest : List Char} {found : List (Lexeme × Nat)} {r : Reading}

private theorem read_no_stray {ls : List (Lexeme × Nat)} (hr : ls.foldlM step .start = .ok r) :
    ∀ l ∈ ls, l.1 ≠ .stray := fun l hl =>
  (reads_of_foldlM hr).no_stray l.1 (List.mem_map_of_mem hl)

variable (ht : Takes rest 0 front found) (hr : (found.foldr joinText []).foldlM step .start = .ok r)
include ht hr

private theorem accepts_completed : ∃ tail, Accepts (front ++ tail) := by
  obtain ⟨ls, r', e, hls, hreads, hf⟩ := completable ((reads_of_foldlM hr).closable rfl)
  obtain ⟨tail, more, hscan, hmore⟩ := scan_enders ht (read_no_stray hr) hls
  exact ⟨tail, accepts_of_reads hscan hr (by rw [hmore]; exact hreads) hf⟩

/-- Where an operand is expected, the first word of `not in` is a sign. -/
private theorem accepts_sign {gap after : List Char} (hfocus : r.focus = .operand)
    (hrest : rest = ['n', 'o', 't'] ++ (gap ++ after)) (hg : Gap gap)
    (ha : Apart ['n', 'o', 't'] (gap ++ after)) :
    ∃ tail, Accepts (front ++ (['n', 'o', 't'] ++ gap) ++ tail) := by
  obtain ⟨holes, p, focus⟩ := r
  obtain rfl : focus = .operand := hfocus
  have hclosable : closable holes = true := (reads_of_foldlM hr).closable rfl
  obtain ⟨ls, r', e, hls, hreads, hf⟩ := completable
    (r := ⟨holes, { p with signs := .not :: p.signs }, .after (.name "x")⟩) hclosable
  have henders : ∀ l ∈ Lexeme.name "x" :: ls, ender l = true :=
    List.forall_mem_cons.mpr ⟨rfl, hls⟩
  have hword : ∀ d ∈ ['n', 'o', 't'], inName d = true := List.all_eq_true.mp rfl
  let tail := [' '] ++ ((Lexeme.name "x" :: ls).flatMap spelling).flatMap (' ' :: ·)
  have hapart : Apart ['n', 'o', 't'] (gap ++ tail) := by
    rintro _ - d hd ⟨-, hin⟩
    have hgap : isGap d = true := by
      cases gap with
      | nil =>
        cases hd
        rfl
      | cons c gap =>
        cases hd
        exact hg _ List.mem_cons_self
    rw [inName_not_gap hin] at hgap
    cases hgap
  have he : Exchange rest (['n', 'o', 't'] ++ (gap ++ tail)) := by
    subst hrest
    refine ⟨.inr ⟨rfl, rfl⟩, fun k _ hnext => ?_⟩
    rw [← hnext, nextWord_word hword ha, nextWord_word hword hapart]
  have hsound : ∀ l ∈ Lexeme.not :: .name "x" :: ls, l.Sound :=
    List.forall_mem_cons.mpr ⟨trivial, enders_sound henders⟩
  obtain ⟨more, hscan, hmore⟩ := scan_exchange ht (read_no_stray hr) he hsound
    (List.isChain_cons_cons.mpr ⟨rfl, enders_chain henders⟩) (by simp [isText])
    (.cons gap_nil hapart (Layout.gap hg (Layout.gap gap_space (.spaced _))))
  have hcut : scan (front ++ (['n', 'o', 't'] ++ gap) ++ tail) =
      found.foldr joinText [] ++ more := by
    rw [← hscan, List.append_assoc, List.append_assoc]
  refine ⟨tail, accepts_of_reads hcut hr ?_ hf⟩
  rw [hmore]
  exact .cons rfl (.cons rfl hreads)

end Cut

/-- Where a text is refused, the part in front of it is that of a text that is accepted. -/
private theorem ofLexemes_viable {cs : List Char} {place : Nat}
    (h : ofLexemes (scan cs) cs.length = .error place) : ViableTo Accepts cs place := by
  rw [ofLexemes] at h
  cases hread : (scan cs).foldlM step .start with
  | ok r =>
    rw [hread] at h
    have hplace : cs.length = place := by
      simp only [bind, Except.bind] at h
      split at h <;> cases h
      rfl
    rw [← hplace]
    have hall := viableTo_append [] (accepts_completed (takes_all 0 cs) hread)
    rwa [List.append_nil] at hall
  | error q =>
    rw [hread] at h
    cases h
    obtain ⟨before, ⟨l, q⟩, behind, r, hscan, hbefore, hstep⟩ := foldlM_error hread
    obtain ⟨front, w, rest, found, found', rfl, hq, ht, hfound, hw, htext⟩ := scan_split hscan
    rw [← hfound] at hbefore
    rcases step_error hstep with hplace | ⟨rfl, hfocus⟩
    · have hfront : place = front.length := hplace.trans hq
      rw [hfront]
      exact viableTo_append _ (accepts_completed ht hbefore)
    · rw [htext rfl] at hw
      obtain ⟨gap, after, hrest, hgap, hapart, hplace⟩ := found_notWithin hw
      have hall := viableTo_append after (accepts_sign ht hbefore hfocus hrest hgap hapart)
      rw [List.length_append, ← hq, ← hplace, List.append_assoc, List.append_assoc] at hall
      rw [hrest]
      exact hall

end Expr

namespace Targets

open Lexeme
open Stencil.Expr (ViableTo viableTo_append scan_split scan_enders)
open Stencil.Expr.Reading (ender)

def Accepts (cs : List Char) : Prop :=
  ∃ names, ofLexemes cs.length true (scan cs) = .ok names

def Completable (needed : Bool) (before : List (Lexeme × Nat)) : Prop :=
  ∃ fill, (∀ l ∈ fill, ender l = true) ∧ ∀ ending more, more.map (fun l => l.1.shape) = fill →
    ∃ names, ofLexemes ending needed (before ++ more) = .ok names

private theorem completable_nil (needed : Bool) : Completable needed [] := by
  refine ⟨[.name "x"], by decide, fun ending more hmore => ?_⟩
  obtain ⟨⟨l, place⟩, rest, rfl, hl, hrest⟩ := List.map_eq_cons_iff.mp hmore
  rw [List.map_eq_nil_iff.mp hrest]
  cases l <;> cases hl
  exact ⟨["x"], rfl⟩

private theorem completable_name (needed : Bool) (n : String) (place : Nat) :
    Completable needed [(.name n, place)] := by
  refine ⟨[], by simp, fun ending more hmore => ?_⟩
  rw [List.map_eq_nil_iff.mp hmore]
  exact ⟨[n], rfl⟩

private theorem Completable.comma {before : List (Lexeme × Nat)} (h : Completable false before)
    (needed : Bool) (n : String) (place place' : Nat) :
    Completable needed ((.name n, place) :: (.comma, place') :: before) := by
  obtain ⟨fill, henders, hread⟩ := h
  refine ⟨fill, henders, fun ending more hmore => ?_⟩
  obtain ⟨names, hnames⟩ := hread ending more hmore
  refine ⟨n :: names, ?_⟩
  rw [List.cons_append, List.cons_append, ofLexemes, hnames]
  rfl

private theorem ofLexemes_error {ending place : Nat} {needed : Bool} {ls : List (Lexeme × Nat)}
    (h : ofLexemes ending needed ls = .error place) :
    ∃ before behind, ls = before ++ behind ∧ Completable needed before ∧
      (∀ l ∈ before, l.1 ≠ .stray) ∧
      (behind = [] ∧ place = ending ∨ ∃ l rest, behind = (l, place) :: rest) := by
  induction needed, ls using ofLexemes.induct with
  | case1 =>
    cases h
    exact ⟨[], [], rfl, completable_nil _, by simp, .inl ⟨rfl, rfl⟩⟩
  | case2 needed hneeded =>
    rw [ofLexemes, if_neg hneeded] at h
    cases h
  | case3 needed n p q rest ih =>
    rw [ofLexemes] at h
    cases hrest : ofLexemes ending false rest with
    | ok names =>
      rw [hrest] at h
      cases h
    | error place' =>
      rw [hrest] at h
      cases h
      obtain ⟨before, behind, rfl, hbefore, hstray, hbehind⟩ := ih hrest
      refine ⟨_ :: _ :: before, behind, rfl, hbefore.comma needed n p q, ?_, hbehind⟩
      simpa using hstray
  | case4 needed n p => cases h
  | case5 needed n p l q rest hl =>
    rw [ofLexemes] at h
    · cases h
      exact ⟨[(.name n, p)], _, rfl, completable_name needed n p, by simp, .inr ⟨l, rest, rfl⟩⟩
    · exact hl
  | case6 needed l q rest hcomma hlast hmore =>
    rw [ofLexemes] at h
    · cases h
      exact ⟨[], _, rfl, completable_nil _, by simp, .inr ⟨l, rest, rfl⟩⟩
    · exact hcomma
    · exact hlast
    · exact hmore

private theorem accepts_completed {front rest : List Char} {found : List (Lexeme × Nat)}
    (ht : Takes rest 0 front found) (hstray : ∀ l ∈ found.foldr joinText [], l.1 ≠ .stray)
    (h : Completable true (found.foldr joinText [])) : ∃ tail, Accepts (front ++ tail) := by
  obtain ⟨fill, henders, hread⟩ := h
  obtain ⟨tail, more, hscan, hmore⟩ := scan_enders ht hstray henders
  refine ⟨tail, ?_⟩
  rw [Accepts, hscan]
  exact hread _ more hmore

private theorem ofLexemes_viable {cs : List Char} {place : Nat}
    (h : ofLexemes cs.length true (scan cs) = .error place) : ViableTo Accepts cs place := by
  obtain ⟨before, behind, hscan, hbefore, hstray, ⟨rfl, rfl⟩ | ⟨l, rest, rfl⟩⟩ := ofLexemes_error h
  · rw [List.append_nil] at hscan
    rw [← hscan] at hbefore hstray
    have hall := viableTo_append [] (accepts_completed (takes_all 0 cs) hstray hbefore)
    rwa [List.append_nil] at hall
  · obtain ⟨front, w, rest, found, found', rfl, rfl, ht, rfl, -, -⟩ := scan_split hscan
    exact viableTo_append _ (accepts_completed ht hstray hbefore)

end Targets

/-- A text that is no expression, or no list of names to bind, is shown with the error, and the
column is that of a place in front of which nothing is wrong: what stands there can be extended to a
text that is accepted. -/
theorem syntax_error_viable (text shown : String) (col : Nat) :
    (Expr.parse text = .error (.expression shown col) → shown = text ∧ ∃ place,
      Expr.ofLexemes (Lexeme.scan text.toList) text.toList.length = .error place ∧
      col = column text.toList place ∧ Expr.ViableTo Expr.Accepts text.toList place) ∧
    (Targets.parse text = .error (.expression shown col) → shown = text ∧ ∃ place,
      Targets.ofLexemes text.toList.length true (Lexeme.scan text.toList) = .error place ∧
      col = column text.toList place ∧ Expr.ViableTo Targets.Accepts text.toList place) := by
  constructor
  · intro h
    simp only [Expr.parse] at h
    split at h
    · next place hplace =>
      cases h
      exact ⟨rfl, place, hplace, rfl, Expr.ofLexemes_viable hplace⟩
    · split at h <;> cases h
  · intro h
    simp only [Targets.parse] at h
    split at h
    · next place hplace =>
      cases h
      exact ⟨rfl, place, hplace, rfl, Targets.ofLexemes_viable hplace⟩
    · cases h

/-- Where an operand has to stand, `not in` is wrong in its second word only. -/
theorem syntax_error_viable_not_in :
    Expr.parse "\x7b'a': not in b" = .error (.expression "\x7b'a': not in b" 11) ∧
      ∃ tail, Expr.Accepts ("\x7b'a': not ".toList ++ tail) := by
  have h : Expr.parse "\x7b'a': not in b" = .error (.expression "\x7b'a': not in b" 11) := by rfl
  have hplace : Expr.ofLexemes (Lexeme.scan "\x7b'a': not in b".toList) 14 = .error 10 := by rfl
  obtain ⟨-, place, herror, -, -, hviable⟩ := (syntax_error_viable _ _ _).1 h
  obtain rfl : 10 = place := Except.error.inj (hplace.symm.trans herror)
  exact ⟨h, hviable⟩

end Stencil
