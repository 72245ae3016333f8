import Mathlib.Data.List.TakeWhile
import Stencil.Proofs.Expr.Phrases

/-! # What reading can give -/

namespace Stencil

namespace Lexeme

/-- What the scanner promises about lexemes that carry something. -/
def Sensible : Lexeme → Prop
  | literal (.int i) => 0 ≤ i.toInt
  | name n => IsName n
  | _ => True

def Clean : Lexeme → Prop
  | literal v => v.Plain
  | name n => IsName n
  | _ => True

private theorem ofWord_sensible (place : Nat) {c : Char} {t : List Char} (after : List Char)
    (hc : startsName c = true) (ht : ∀ d ∈ t, inName d = true) :
    (ofWord place (c :: t) after).1.Sensible := by
  by_cases hk : String.ofList (c :: t) ∈ keywords
  · simp only [keywords, List.mem_cons, List.not_mem_nil, or_false] at hk
    unfold ofWord
    rcases hk with h | h | h | h | h | h | h | h | h | h | h | h <;> simp only [h] <;>
      first | trivial | (split <;> trivial)
  · rw [ofWord_name hk]
    exact ⟨c, t, String.toList_ofList, hc, ht, hk⟩

private theorem number_sensible (cs : List Char) : (number cs).1.Sensible := by
  have hd : ∀ c ∈ cs.takeWhile Char.isDigit, c.isDigit = true := fun c hc =>
    List.mem_takeWhile_imp hc
  simp only [number]
  split
  · split
    · next i hi => exact Number.readInteger?_nonneg hd hi
    · trivial
  · trivial

private theorem sign_sensible (c : Char) (after : List Char) : (sign c after).1.Sensible := by
  have hif : ∀ {p : Prop} [Decidable p] {x y : Lexeme × Nat}, x.1.Sensible → y.1.Sensible →
      (if p then x else y).1.Sensible := by
    intro p _ x y hx hy
    split
    · exact hx
    · exact hy
  unfold sign
  extract_lets
  repeat' apply hif
  all_goals trivial

private theorem first_sensible (place : Nat) (c : Char) (cs : List Char) :
    (first place c cs).1.Sensible := by
  unfold first
  split
  · next hc => exact ofWord_sensible place _ hc fun d hd => List.mem_takeWhile_imp hd
  split
  · exact number_sensible (c :: cs)
  split
  · split <;> trivial
  · exact sign_sensible c cs

private theorem scanFrom_sensible (place skip : Nat) (cs : List Char) :
    ∀ l ∈ scanFrom place skip cs, l.1.Sensible := by
  induction cs generalizing place skip with
  | nil => exact fun l hl => by cases hl
  | cons c cs ih =>
    cases skip with
    | succ skip => exact ih (place + 1) skip
    | zero =>
      rw [scanFrom]
      split
      · exact ih (place + 1) 0
      · intro l hl
        rcases List.mem_cons.mp hl with rfl | hl
        · exact first_sensible place c cs
        · exact ih _ _ l hl

private theorem joinText_sensible {l : Lexeme × Nat} {ls : List (Lexeme × Nat)} (hl : l.1.Sensible)
    (hs : ∀ l ∈ ls, l.1.Sensible) : ∀ m ∈ joinText l ls, m.1.Sensible := by
  intro m hm
  unfold joinText at hm
  split at hm
  · rcases List.mem_cons.mp hm with rfl | hm
    · trivial
    · exact hs m (List.mem_cons_of_mem _ hm)
  · rcases List.mem_cons.mp hm with rfl | hm
    · exact hl
    · exact hs m hm

private theorem scan_sensible (cs : List Char) : ∀ l ∈ scan cs, l.1.Sensible := by
  have hjoin : ∀ ls : List (Lexeme × Nat), (∀ l ∈ ls, l.1.Sensible) →
      ∀ l ∈ ls.foldr joinText [], l.1.Sensible := by
    intro ls
    induction ls with
    | nil => exact fun _ l hl => by cases hl
    | cons l ls ih =>
      intro h
      obtain ⟨hl, h⟩ := List.forall_mem_cons.mp h
      rw [List.foldr_cons]
      exact joinText_sensible hl (ih h)
  exact hjoin _ (scanFrom_sensible 0 0 cs)

def isReal : Lexeme → Bool
  | literal (.real _) => true
  | _ => false

private theorem Sensible.clean {l : Lexeme} (h : l.Sensible) (hr : l.isReal = false) : l.Clean := by
  cases l with
  | literal v =>
    cases v with
    | real x => cases hr
    | int i => exact h
    | _ => trivial
  | name n => exact h
  | _ => trivial

end Lexeme

def Growing.Plain : Growing → Prop
  | unary _ => True
  | binary left _ => left.Plain

private theorem Growing.finish_plain {g : Growing} {e : Expr} (hg : g.Plain) (he : e.Plain) :
    (g.finish e).Plain := by
  cases g with
  | unary op => exact .unary he
  | binary left op => exact .binary hg he

namespace Chain

private theorem settle_plain (power : Nat) {gs : List Growing} {e : Expr} (hg : ∀ g ∈ gs, g.Plain)
    (he : e.Plain) : (∀ g ∈ (settle power gs e).1, g.Plain) ∧ (settle power gs e).2.Plain := by
  induction gs generalizing e with
  | nil => exact ⟨hg, he⟩
  | cons g gs ih =>
    rw [settle]
    split
    · exact ⟨hg, he⟩
    · obtain ⟨hfirst, hg⟩ := List.forall_mem_cons.mp hg
      exact ih hg (Growing.finish_plain hfirst he)

private theorem grow_plain {gs : List Growing} (signs : List UnaryOp) (hg : ∀ g ∈ gs, g.Plain) :
    ∀ g ∈ grow gs signs, g.Plain := by
  induction signs generalizing gs with
  | nil => exact hg
  | cons op signs ih =>
    have hgrown : ∀ g ∈ Growing.unary op :: gs, g.Plain :=
      List.forall_mem_cons.mpr ⟨trivial, hg⟩
    exact ih hgrown

private theorem finish_all_plain {gs : List Growing} {e : Expr} (hg : ∀ g ∈ gs, g.Plain)
    (he : e.Plain) :
    (gs.foldl (fun e g => g.finish e) e).Plain := by
  induction gs generalizing e with
  | nil => exact he
  | cons g gs ih =>
    obtain ⟨hfirst, hg⟩ := List.forall_mem_cons.mp hg
    exact ih hg (Growing.finish_plain hfirst he)

private theorem treeFrom_plain {gs : List Growing} {links : List (Operand × BinaryOp)}
    {last : Operand}
    (hg : ∀ g ∈ gs, g.Plain) (hl : ∀ link ∈ links, link.1.value.Plain) (he : last.value.Plain) :
    (treeFrom gs links last).Plain := by
  induction links generalizing gs with
  | nil => exact finish_all_plain (grow_plain last.signs hg) he
  | cons link links ih =>
    obtain ⟨operand, op⟩ := link
    obtain ⟨hoperand, hl⟩ := List.forall_mem_cons.mp hl
    obtain ⟨hsettled, hleft⟩ := settle_plain op.power (grow_plain operand.signs hg) hoperand
    rw [treeFrom]
    exact ih (List.forall_mem_cons.mpr ⟨hleft, hsettled⟩) hl

end Chain

namespace Expr

def Pending.Plain (p : Pending) : Prop :=
  ∀ link ∈ p.links, link.1.value.Plain

private theorem Pending.start_plain : Pending.start.Plain :=
  fun _ h => by cases h

private theorem Pending.close_plain {p : Pending} {e : Expr} (hp : p.Plain) (he : e.Plain) :
    (p.close e).Plain := by
  refine Chain.treeFrom_plain (fun g h => by cases h) (fun link hm => ?_) he
  exact hp link (List.mem_reverse.mp hm)

def Hole.Plain : Hole → Prop
  | group outer => outer.Plain
  | tuple outer items => outer.Plain ∧ ∀ e ∈ items, e.Plain
  | list outer items => outer.Plain ∧ ∀ e ∈ items, e.Plain
  | args outer callee items => outer.Plain ∧ callee.Plain ∧ ∀ e ∈ items, e.Plain
  | key outer entries => outer.Plain ∧ ∀ entry ∈ entries, entry.1.Plain ∧ entry.2.Plain
  | value outer entries k =>
    outer.Plain ∧ (∀ entry ∈ entries, entry.1.Plain ∧ entry.2.Plain) ∧ k.Plain
  | subscript outer target => outer.Plain ∧ target.Plain
  | upper outer target lower => outer.Plain ∧ target.Plain ∧ ∀ e, lower = some e → e.Plain
  | condition v => v.Plain
  | otherwise v c => v.Plain ∧ c.Plain

def Focus.Plain : Focus → Prop
  | operand => True
  | after e => e.Plain
  | member target => target.Plain

/-- Everything read so far is made of such expressions. -/
structure Reading.Plain (r : Reading) : Prop where
  holes : ∀ hole ∈ r.holes, hole.Plain
  pending : r.pending.Plain
  focus : r.focus.Plain

namespace Reading

private theorem start_plain : Reading.start.Plain :=
  ⟨fun _ h => (List.not_mem_nil h).elim, Pending.start_plain, trivial⟩

private theorem descend_plain {holes : List Hole} (h : ∀ hole ∈ holes, hole.Plain) :
    (descend holes).Plain :=
  ⟨h, Pending.start_plain, trivial⟩

private theorem ascend_plain {holes : List Hole} {outer : Pending} {e : Expr}
    (h : ∀ hole ∈ holes, hole.Plain) (ho : outer.Plain) (he : e.Plain) :
    (ascend holes outer e).Plain :=
  ⟨h, ho, he⟩

private theorem settle_plain {holes holes' : List Hole} {e e' : Expr}
    (h : ∀ hole ∈ holes, hole.Plain) (he : e.Plain) (hs : settle holes e = some (holes', e')) :
    (∀ hole ∈ holes', hole.Plain) ∧ e'.Plain := by
  induction holes generalizing e with
  | nil =>
    cases hs
    exact ⟨h, he⟩
  | cons hole holes ih =>
    cases hole with
    | otherwise value condition =>
      obtain ⟨⟨hvalue, hcondition⟩, h⟩ := List.forall_mem_cons.mp h
      exact ih h (.choice hcondition hvalue he) hs
    | condition value => cases hs
    | _ =>
      cases hs
      exact ⟨h, he⟩

private theorem beginOperand_plain {holes : List Hole} {p : Pending} {l : Lexeme} {r : Reading}
    (h : ∀ hole ∈ holes, hole.Plain) (hp : p.Plain) (hl : l.Clean)
    (hb : beginOperand holes p l = some r) : r.Plain := by
  cases l with
  | literal v => cases hb; exact ⟨h, hp, .literal hl⟩
  | oversized digits => cases hb; exact ⟨h, hp, .literal trivial⟩
  | name n => cases hb; exact ⟨h, hp, .name hl⟩
  | plus => cases hb; exact ⟨h, hp, trivial⟩
  | minus => cases hb; exact ⟨h, hp, trivial⟩
  | not => cases hb; exact ⟨h, hp, trivial⟩
  | openParen => cases hb; exact descend_plain (List.forall_mem_cons.mpr ⟨hp, h⟩)
  | openSquare =>
    cases hb
    exact descend_plain (List.forall_mem_cons.mpr ⟨⟨hp, fun _ hm => by cases hm⟩, h⟩)
  | openBrace =>
    cases hb
    exact descend_plain (List.forall_mem_cons.mpr ⟨⟨hp, fun _ hm => by cases hm⟩, h⟩)
  | _ => cases hb

private theorem plain_reverse {es : List Expr} (h : ∀ e ∈ es, e.Plain) :
    ∀ e ∈ es.reverse, e.Plain :=
  fun e hm => h e (List.mem_reverse.mp hm)

private theorem dict_plain {entries : List (Expr × Expr)}
    (h : ∀ entry ∈ entries, entry.1.Plain ∧ entry.2.Plain) : (Expr.dict entries.reverse).Plain :=
  .dict (fun entry hm => (h entry (List.mem_reverse.mp hm)).1)
    fun entry hm => (h entry (List.mem_reverse.mp hm)).2

private theorem endEmpty_plain {holes : List Hole} {l : Lexeme} {r : Reading}
    (h : ∀ hole ∈ holes, hole.Plain) (he : endEmpty holes l = some r) : r.Plain := by
  -- One case for every construct that may end where an expression could begin.
  unfold endEmpty at he
  split at he <;> cases he <;> obtain ⟨hhole, hrest⟩ := List.forall_mem_cons.mp h
  · exact ascend_plain hrest hhole (.list fun _ hm => by cases hm)
  · exact ascend_plain hrest hhole.1 (.list (plain_reverse hhole.2))
  · exact ascend_plain hrest hhole.1 (.call hhole.2.1 (plain_reverse hhole.2.2))
  · exact ascend_plain hrest hhole.1 (.list (plain_reverse hhole.2))
  · exact ascend_plain hrest hhole.1 (.slice hhole.2.1 hhole.2.2 fun _ hn => by cases hn)
  · exact ascend_plain hrest hhole.1 (dict_plain hhole.2)
  · refine descend_plain (List.forall_mem_cons.mpr ⟨⟨hhole.1, hhole.2, ?_⟩, hrest⟩)
    exact fun _ hn => by cases hn

private theorem endItem_plain {holes : List Hole} {e : Expr} {l : Lexeme} {r : Reading}
    (h : ∀ hole ∈ holes, hole.Plain) (hp : e.Plain) (he : endItem e holes l = some r) :
    r.Plain := by
  have hcons : ∀ {es : List Expr}, (∀ e ∈ es, e.Plain) → ∀ x ∈ e :: es, x.Plain :=
    fun hes => List.forall_mem_cons.mpr ⟨hp, hes⟩
  unfold endItem at he
  split at he <;> cases he <;> obtain ⟨hhole, hrest⟩ := List.forall_mem_cons.mp h
  · exact ascend_plain hrest hhole hp
  · refine descend_plain (List.forall_mem_cons.mpr ⟨⟨hhole, hcons ?_⟩, hrest⟩)
    exact fun _ hm => by cases hm
  · exact ascend_plain hrest hhole.1 (.list (plain_reverse (hcons hhole.2)))
  · exact descend_plain (List.forall_mem_cons.mpr ⟨⟨hhole.1, hcons hhole.2⟩, hrest⟩)
  · exact ascend_plain hrest hhole.1 (.list (plain_reverse (hcons hhole.2)))
  · exact descend_plain (List.forall_mem_cons.mpr ⟨⟨hhole.1, hcons hhole.2⟩, hrest⟩)
  · exact ascend_plain hrest hhole.1 (.call hhole.2.1 (plain_reverse (hcons hhole.2.2)))
  · exact descend_plain
      (List.forall_mem_cons.mpr ⟨⟨hhole.1, hhole.2.1, hcons hhole.2.2⟩, hrest⟩)
  · exact descend_plain (List.forall_mem_cons.mpr ⟨⟨hhole.1, hhole.2, hp⟩, hrest⟩)
  · exact ascend_plain hrest hhole.1
      (dict_plain (List.forall_mem_cons.mpr ⟨⟨hhole.2.2, hp⟩, hhole.2.1⟩))
  · refine descend_plain (List.forall_mem_cons.mpr ⟨⟨hhole.1, ?_⟩, hrest⟩)
    exact List.forall_mem_cons.mpr ⟨⟨hhole.2.2, hp⟩, hhole.2.1⟩
  · exact ascend_plain hrest hhole.1 (.index hhole.2 hp)
  · refine descend_plain (List.forall_mem_cons.mpr ⟨⟨hhole.1, hhole.2, ?_⟩, hrest⟩)
    exact fun _ hn => by cases hn; exact hp
  · refine ascend_plain hrest hhole.1 (.slice hhole.2.1 hhole.2.2 ?_)
    exact fun _ hn => by cases hn; exact hp

private theorem afterOperand_plain {holes : List Hole} {p : Pending} {e : Expr} {l : Lexeme}
    {r : Reading} (h : ∀ hole ∈ holes, hole.Plain) (hp : p.Plain) (he : e.Plain)
    (ha : afterOperand holes p e l = some r) : r.Plain := by
  have hclose := Pending.close_plain hp he
  unfold afterOperand at ha
  split at ha
  · cases ha
    exact ⟨h, List.forall_mem_cons.mpr ⟨he, hp⟩, trivial⟩
  split at ha
  · cases ha
    exact descend_plain (List.forall_mem_cons.mpr ⟨⟨hp, he, fun _ hm => by cases hm⟩, h⟩)
  · cases ha
    exact descend_plain (List.forall_mem_cons.mpr ⟨⟨hp, he⟩, h⟩)
  · cases ha
    exact ⟨h, hp, he⟩
  · cases ha
  · cases ha
    exact descend_plain (List.forall_mem_cons.mpr ⟨hclose, h⟩)
  · cases ha
    obtain ⟨hvalue, hrest⟩ := List.forall_mem_cons.mp h
    exact descend_plain (List.forall_mem_cons.mpr ⟨⟨hvalue, hclose⟩, hrest⟩)
  · split at ha
    · next hs =>
      obtain ⟨hholes, he'⟩ := settle_plain h hclose hs
      exact endItem_plain hholes he' ha
    · cases ha

private theorem next?_plain {r r' : Reading} {l : Lexeme} (hr : r.Plain) (hl : l.Clean)
    (hn : r.next? l = some r') : r'.Plain := by
  obtain ⟨holes, p, focus⟩ := r
  obtain ⟨h, hp, hf⟩ := hr
  cases focus with
  | operand =>
    simp only [next?] at hn
    split at hn
    · next hb =>
      cases hn
      exact beginOperand_plain h hp hl hb
    · split at hn
      · exact endEmpty_plain h hn
      · cases hn
  | after e => exact afterOperand_plain h hp hf hn
  | member target =>
    simp only [next?] at hn
    split at hn
    · cases hn
      exact ⟨h, hp, .member hf hl⟩
    · cases hn

private theorem foldlM_plain {r r' : Reading} {ls : List (Lexeme × Nat)} (hr : r.Plain)
    (hl : ∀ l ∈ ls, l.1.Clean) (h : ls.foldlM step r = .ok r') : r'.Plain := by
  induction ls generalizing r with
  | nil =>
    cases h
    exact hr
  | cons l ls ih =>
    rw [List.foldlM_cons] at h
    cases hs : r.step l with
    | error place => rw [hs] at h; cases h
    | ok m =>
      rw [hs] at h
      obtain ⟨hfirst, hl⟩ := List.forall_mem_cons.mp hl
      exact ih (next?_plain hr hfirst (step_eq_ok.mp hs)) hl h

private theorem finish?_plain {r : Reading} {e : Expr} (hr : r.Plain) (h : r.finish? = some e) :
    e.Plain := by
  obtain ⟨holes, p, focus⟩ := r
  obtain ⟨hh, hp, hf⟩ := hr
  cases focus with
  | after operand =>
    simp only [finish?] at h
    split at h
    · next hs =>
      cases h
      exact (settle_plain hh (Pending.close_plain hp hf) hs).2
    · cases h
  | _ => cases h

end Reading

private theorem plain_of_parse {text : String} {e : Expr} (h : parse text = .ok e)
    (hr : ∀ l ∈ Lexeme.scan text.toList, l.1.isReal = false) : e.Plain := by
  have hl : ∀ l ∈ Lexeme.scan text.toList, l.1.Clean := fun l hm =>
    (Lexeme.scan_sensible text.toList l hm).clean (hr l hm)
  simp only [parse] at h
  split at h
  · cases h
  · next e' hread =>
    split at h
    · cases h
    · cases h
      unfold ofLexemes at hread
      cases hs : (Lexeme.scan text.toList).foldlM Reading.step .start with
      | error place => rw [hs] at hread; cases hread
      | ok r =>
        have hplain := Reading.foldlM_plain Reading.start_plain hl hs
        rw [hs] at hread
        cases hf : r.finish? with
        | none => simp [bind, Except.bind, hf] at hread
        | some e' =>
          simp [bind, Except.bind, hf] at hread
          cases hread
          exact Reading.finish?_plain hplain hf

/-- An expression without real numbers and negative integers is read back from every text that
writes it out, and no other expressions are read from texts without real numbers. -/
theorem parse_round_trip (e : Expr) :
    (e.Plain → e.Writes e.written ∧ ∀ cs, e.Writes cs → parse (String.ofList cs) = .ok e) ∧
      ∀ text, (∀ l ∈ Lexeme.scan text.toList, l.1.isReal = false) → parse text = .ok e →
        e.Plain ∧ ∀ cs, e.Writes cs → parse (String.ofList cs) = .ok e := by
  refine ⟨fun h => ⟨e.writes_written, fun cs hw => h.parse_writes hw⟩, fun text hr hp => ?_⟩
  have h := plain_of_parse hp hr
  exact ⟨h, fun cs hw => h.parse_writes hw⟩

/-- The name begins like a keyword, and the operator is two words behind it. -/
theorem parse_order_not_in :
    let e : Expr := .binary .notWithin (.name "order") (.unary .negate (.literal (.int 7)))
    parse "order not in -7" = .ok e ∧ e.Plain ∧
      parse (String.ofList " ( order not in ( - 7 ) )".toList) = .ok e := by
  intro e
  have hp : parse "order not in -7" = .ok e := by rfl
  have hr : ∀ l ∈ Lexeme.scan "order not in -7".toList, l.1.isReal = false := by
    have hall : (Lexeme.scan "order not in -7".toList).all (fun l => !l.1.isReal) = true := by rfl
    simpa using List.all_eq_true.mp hall
  have hw : e.written = " ( order not in ( - 7 ) )".toList := by decide
  obtain ⟨hplain, -⟩ := (parse_round_trip e).2 _ hr hp
  obtain ⟨hwrites, hread⟩ := (parse_round_trip e).1 hplain
  rw [hw] at hwrites
  exact ⟨hp, hplain, hread _ hwrites⟩

end Expr

end Stencil
