import Mathlib.Data.List.Forall2
import Stencil.Proofs.Template.TagForm
import Stencil.Template.Compile

/-!
# Derivations of templates

The block grammar of the builtin constructs over tokens, and the tags that a tree of segments was
made of. Compiling accepts exactly the derivable sources and gives the tree of the derivation.
-/

namespace Stencil

namespace Token

def IsWord (word : List Char) (t : Token) : Prop :=
  t.kind = .block ∧ t.content.toList = word

def IsHeader (word : List Char) (f : Formula) (t : Token) : Prop :=
  t.kind = .block ∧ WordForm word f.source.toList t.content.toList ∧ Formula.parse f.source = .ok f

def IsLoop (targets : List String) (unpack : Bool) (items : Formula) (t : Token) : Prop :=
  t.kind = .block ∧ ∃ names, LoopForm names items.source.toList t.content.toList ∧
    Targets.parse (String.ofList names) = .ok targets ∧ unpack = names.contains ',' ∧
    Formula.parse items.source = .ok items

end Token

inductive Part where
  | segment (s : Segment)
  | body (b : Block)
  /-- The clauses of a choice, whose first tag is on a line. -/
  | clauses (line : Nat) (done : List (Formula × Block))

/-- The block grammar: a body is any number of segments, and a segment is a text, an expression, an
insertion, a choice of clauses with or without a last block, or a loop. -/
inductive Derives : Part → List Token → Prop where
  | empty : Derives (.body []) []
  | more {s b ts us} : Derives (.segment s) ts → Derives (.body b) us →
      Derives (.body (s :: b)) (ts ++ us)
  | text {t} : t.kind = .text → Derives (.segment ⟨t.line, .text t.content⟩) [t]
  | output {t f} : t.kind = .expression → Formula.parse t.content = .ok f →
      Derives (.segment ⟨t.line, .output f⟩) [t]
  | insertion {t f} : t.IsHeader ['i', 'n', 'c', 'l', 'u', 'd', 'e'] f →
      Derives (.segment ⟨t.line, .insertion f⟩) [t]
  | choice {line cs ts t} : Derives (.clauses line cs) ts → t.IsWord ['e', 'n', 'd', 'i', 'f'] →
      Derives (.segment ⟨line, .choice cs none⟩) (ts ++ [t])
  | choiceElse {line cs ts t b us u} : Derives (.clauses line cs) ts →
      t.IsWord ['e', 'l', 's', 'e'] → Derives (.body b) us → u.IsWord ['e', 'n', 'd', 'i', 'f'] →
      Derives (.segment ⟨line, .choice cs (some b)⟩) (ts ++ (t :: us ++ [u]))
  | loop {t targets unpack items b ts u} : t.IsLoop targets unpack items → Derives (.body b) ts →
      u.IsWord ['e', 'n', 'd', 'f', 'o', 'r'] →
      Derives (.segment ⟨t.line, .loop targets unpack items b⟩) (t :: ts ++ [u])
  | first {t f b ts} : t.IsHeader ['i', 'f'] f → Derives (.body b) ts →
      Derives (.clauses t.line [(f, b)]) (t :: ts)
  | next {line cs ts t f b us} : Derives (.clauses line cs) ts →
      t.IsHeader ['e', 'l', 'i', 'f'] f → Derives (.body b) us →
      Derives (.clauses line (cs ++ [(f, b)])) (ts ++ t :: us)

/-- A token as a tree of segments accounts for it: segments know their line, while branches and
endings stand where the blocks around them begin and end. -/
inductive Mark where
  | text (line : Nat) (content : String)
  | output (line : Nat) (value : String)
  | insertion (line : Nat) (target : String)
  | choice (line : Nat) (condition : String)
  | clause (condition : String)
  | otherwise
  | endChoice
  | loop (line : Nat) (targets : List String) (unpack : Bool) (items : String)
  | endLoop

namespace Mark

mutual

/-- The marks of a step on a line. Tags of the host leave none of their own. -/
def ofStep (line : Nat) : Step → List Mark
  | .text content => [.text line content]
  | .output f => [.output line f.source]
  | .insertion f => [.insertion line f.source]
  | .choice clauses none => ofClauses (.choice line) clauses ++ [.endChoice]
  | .choice clauses (some body) =>
    ofClauses (.choice line) clauses ++ (.otherwise :: ofBlock body ++ [.endChoice])
  | .loop targets unpack f body => .loop line targets unpack f.source :: ofBlock body ++ [.endLoop]
  | .captured _ _ body => ofBlock body

def ofClauses (tag : String → Mark) : List (Formula × List (Located Step)) → List Mark
  | [] => []
  | (f, body) :: rest => tag f.source :: ofBlock body ++ ofClauses .clause rest

def ofBlock : List (Located Step) → List Mark
  | [] => []
  | ⟨line, step⟩ :: rest => ofStep line step ++ ofBlock rest

end

def Of : Mark → Token → Prop
  | text line content, t => t.kind = .text ∧ t.line = line ∧ t.content = content
  | output line value, t => t.kind = .expression ∧ t.line = line ∧ t.content = value
  | insertion line target, t => t.kind = .block ∧ t.line = line ∧
      WordForm ['i', 'n', 'c', 'l', 'u', 'd', 'e'] target.toList t.content.toList
  | choice line condition, t => t.kind = .block ∧ t.line = line ∧
      WordForm ['i', 'f'] condition.toList t.content.toList
  | clause condition, t => t.kind = .block ∧
      WordForm ['e', 'l', 'i', 'f'] condition.toList t.content.toList
  | otherwise, t => t.IsWord ['e', 'l', 's', 'e']
  | endChoice, t => t.IsWord ['e', 'n', 'd', 'i', 'f']
  | loop line targets unpack items, t => t.kind = .block ∧ t.line = line ∧
      ∃ names, LoopForm names items.toList t.content.toList ∧
        Targets.parse (String.ofList names) = .ok targets ∧ unpack = names.contains ','
  | endLoop, t => t.IsWord ['e', 'n', 'd', 'f', 'o', 'r']

end Mark

private theorem Formula.source_of_parse {text : String} {f : Formula}
    (h : Formula.parse text = .ok f) : f.source = text := by
  unfold Formula.parse at h
  cases he : Expr.parse text with
  | error e => simp [he, bind, Except.bind] at h
  | ok e =>
    obtain rfl : (⟨text, e⟩ : Formula) = f := by
      simpa [he, bind, Except.bind, pure, Except.pure] using h
    rfl

theorem Branch.read?_clause {condition content : List Char}
    (h : WordForm ['e', 'l', 'i', 'f'] condition content) :
    read? content = some (.clause condition) :=
  read?_iff.mpr (.clause (wordForm_iff.mp h).1)

namespace Assembly

theorem onLine_eq_ok {α : Type} {line : Nat} {r : Except SyntaxError α} {a : α} :
    onLine line r = .ok a ↔ r = .ok a := by
  cases r <;> simp [onLine]

theorem bind_eq_ok {ε α β : Type} {x : Except ε α} {k : α → Except ε β} {b : β} :
    (x >>= k) = .ok b ↔ ∃ a, x = .ok a ∧ k a = .ok b := by
  cases x <;> simp [bind, Except.bind]

private theorem isHeader_of_tag {word argument : List Char} {t : Token} {f : Formula} {line : Nat}
    (hk : t.kind = .block) (hw : WordTag word argument t.content.toList)
    (hf : formula line argument = .ok f) : t.IsHeader word f := by
  have hparse : Formula.parse (String.ofList argument) = .ok f := onLine_eq_ok.mp hf
  have hs := Formula.source_of_parse hparse
  refine ⟨hk, ?_, by rw [hs]; exact hparse⟩
  rw [hs, String.toList_ofList]
  refine wordForm_iff.mpr ⟨hw, ?_⟩
  by_contra hsolid
  exact Formula.parse_blanks (hw.blank hsolid) f hparse

private theorem formula_of_parse {line : Nat} {f : Formula} (h : Formula.parse f.source = .ok f) :
    formula line f.source.toList = .ok f := by
  rw [formula, String.ofList_toList, onLine_eq_ok]
  exact h

section Steps

variable {builtins : Bool} {custom : List CustomTag}

theorem step_text {a : Assembly} {t : Token} (hk : t.kind = .text) :
    step builtins custom a t = .ok (a.push t.line (.text t.content)) := by
  simp [step, hk]

theorem run_cons {a b : Assembly} {t : Token} (ts : List Token)
    (h : step builtins custom a t = .ok b) :
    (t :: ts).foldlM (step builtins custom) a = ts.foldlM (step builtins custom) b := by
  rw [List.foldlM_cons, h]
  rfl

theorem run_append {a b : Assembly} {ts : List Token} (us : List Token)
    (h : ts.foldlM (step builtins custom) a = .ok b) :
    (ts ++ us).foldlM (step builtins custom) a = us.foldlM (step builtins custom) b := by
  rw [List.foldlM_append, h]
  rfl

/-- A tag of the host does not take the place of a builtin one. -/
theorem step_insertion {a : Assembly} {t : Token} {f : Formula}
    (h : t.IsHeader ['i', 'n', 'c', 'l', 'u', 'd', 'e'] f) :
    step true custom a t = .ok (a.push t.line (.insertion f)) := by
  obtain ⟨hk, hw, hf⟩ := h
  simp [step, hk, Header.read?, Header.builtin?_insertion hw, header, formula_of_parse hf, bind,
    Except.bind, pure, Except.pure]

end Steps

private theorem step_output {a : Assembly} {t : Token} {f : Formula} (hk : t.kind = .expression)
    (hf : Formula.parse t.content = .ok f) :
    step true [] a t = .ok (a.push t.line (.output f)) := by
  simp [step, hk, onLine_eq_ok.mpr hf, bind, Except.bind, pure, Except.pure]

theorem read?_builtin (content : List Char) :
    Header.read? true [] content = Header.builtin? content := by
  simp [Header.read?]

theorem step_choice {a : Assembly} {t : Token} {f : Formula} (h : t.IsHeader ['i', 'f'] f) :
    step true [] a t = .ok (a.openBlock t.line (.clause [] f)) := by
  obtain ⟨hk, hw, hf⟩ := h
  simp [step, hk, read?_builtin, Header.builtin?_choice hw, header, formula_of_parse hf, bind,
    Except.bind, pure, Except.pure]

theorem step_loop {a : Assembly} {t : Token} {targets : List String} {unpack : Bool}
    {items : Formula} (h : t.IsLoop targets unpack items) :
    step true [] a t = .ok (a.openBlock t.line (.loop targets unpack items)) := by
  obtain ⟨hk, names, hform, ht, rfl, hf⟩ := h
  have ht' : onLine t.line (Targets.parse (String.ofList names)) = .ok targets :=
    onLine_eq_ok.mpr ht
  simp [step, hk, read?_builtin, Header.builtin?_loop hform, header, ht', formula_of_parse hf, bind,
    Except.bind, pure, Except.pure]

private theorem step_branch {frame : Frame} {frames : List Frame} {b : Block} {t : Token}
    (hk : t.kind = .block) (he : t.content.toList.head? = some 'e') :
    step true [] ⟨frame :: frames, b⟩ t =
      within frame frames b.reverse t.line t.content.toList := by
  simp [step, hk, read?_builtin, Header.builtin?_branch he]

theorem step_clause {line : Nat} {done : List (Formula × Block)} {f g : Formula} {before b : Block}
    {frames : List Frame} {t : Token} (h : t.IsHeader ['e', 'l', 'i', 'f'] g) :
    step true [] ⟨⟨line, .clause done f, before⟩ :: frames, b⟩ t =
      .ok ⟨⟨line, .clause (done ++ [(f, b.reverse)]) g, before⟩ :: frames, []⟩ := by
  obtain ⟨hk, hw, hf⟩ := h
  have he : t.content.toList.head? = some 'e' := by
    obtain ⟨gap, _, _, _, hc⟩ := hw
    rw [hc]
    rfl
  rw [step_branch hk he]
  simp [within, Branch.read?_clause hw, formula_of_parse hf, bind, Except.bind, pure, Except.pure]

theorem step_otherwise {line : Nat} {done : List (Formula × Block)} {f : Formula}
    {before b : Block} {frames : List Frame} {t : Token} (h : t.IsWord ['e', 'l', 's', 'e']) :
    step true [] ⟨⟨line, .clause done f, before⟩ :: frames, b⟩ t =
      .ok ⟨⟨line, .otherwise (done ++ [(f, b.reverse)]), before⟩ :: frames, []⟩ := by
  rw [step_branch h.1 (by rw [h.2]; rfl), h.2]
  rfl

theorem step_endChoice {line : Nat} {done : List (Formula × Block)} {f : Formula}
    {before b : Block} {frames : List Frame} {t : Token} (h : t.IsWord ['e', 'n', 'd', 'i', 'f']) :
    step true [] ⟨⟨line, .clause done f, before⟩ :: frames, b⟩ t =
      .ok ⟨frames, ⟨line, .choice (done ++ [(f, b.reverse)]) none⟩ :: before⟩ := by
  rw [step_branch h.1 (by rw [h.2]; rfl), h.2]
  rfl

theorem step_endOtherwise {line : Nat} {clauses : List (Formula × Block)} {before b : Block}
    {frames : List Frame} {t : Token} (h : t.IsWord ['e', 'n', 'd', 'i', 'f']) :
    step true [] ⟨⟨line, .otherwise clauses, before⟩ :: frames, b⟩ t =
      .ok ⟨frames, ⟨line, .choice clauses (some b.reverse)⟩ :: before⟩ := by
  rw [step_branch h.1 (by rw [h.2]; rfl), h.2]
  rfl

private theorem step_endLoop {line : Nat} {targets : List String} {unpack : Bool} {items : Formula}
    {before b : Block} {frames : List Frame} {t : Token}
    (h : t.IsWord ['e', 'n', 'd', 'f', 'o', 'r']) :
    step true [] ⟨⟨line, .loop targets unpack items, before⟩ :: frames, b⟩ t =
      .ok ⟨frames, ⟨line, .loop targets unpack items b.reverse⟩ :: before⟩ := by
  rw [step_branch h.1 (by rw [h.2]; rfl), h.2]
  rfl

end Assembly

/-- What taking in the tokens of a part does to what is there already. -/
def Part.Taken (ts : List Token) : Part → Prop
  | .segment s => ∀ a : Assembly,
      ts.foldlM (Assembly.step true []) a = .ok ⟨a.frames, s :: a.current⟩
  | .body b => ∀ a : Assembly,
      ts.foldlM (Assembly.step true []) a = .ok ⟨a.frames, b.reverse ++ a.current⟩
  | .clauses line cs => ∃ done f b, cs = done ++ [(f, b)] ∧ ∀ a : Assembly,
      ts.foldlM (Assembly.step true []) a =
        .ok ⟨⟨line, .clause done f, a.current⟩ :: a.frames, b.reverse⟩

open Assembly in
theorem Derives.taken {p : Part} {ts : List Token} (h : Derives p ts) : p.Taken ts := by
  -- A part does the same behind anything, so the assembly it is added to varies.
  induction h with
  | empty =>
    intro a
    rfl
  | @more s b ts us _ _ ihs ihb =>
    intro a
    rw [run_append us (ihs a), ihb]
    simp
  | text hk =>
    intro a
    rw [run_cons [] (step_text hk)]
    rfl
  | output hk hf =>
    intro a
    rw [run_cons [] (step_output hk hf)]
    rfl
  | insertion hh =>
    intro a
    rw [run_cons [] (step_insertion hh)]
    rfl
  | @choice line cs ts t _ hend ihc =>
    intro a
    obtain ⟨done, f, b, rfl, hts⟩ := ihc
    rw [run_append [t] (hts a), run_cons [] (step_endChoice hend), List.reverse_reverse]
    rfl
  | @choiceElse line cs ts t b us u _ helse _ hend ihc ihb =>
    intro a
    obtain ⟨done, f, body, rfl, hts⟩ := ihc
    rw [run_append _ (hts a), List.cons_append, run_cons _ (step_otherwise helse),
      run_append [u] (ihb _), run_cons [] (step_endOtherwise hend)]
    simp
    rfl
  | @loop t targets unpack items b ts u hloop _ hend ihb =>
    intro a
    rw [List.cons_append, run_cons _ (step_loop hloop), run_append [u] (ihb _),
      openBlock, run_cons [] (step_endLoop hend)]
    simp
    rfl
  | @first t f b ts hh _ ihb =>
    refine ⟨[], f, b, rfl, fun a => ?_⟩
    rw [run_cons ts (step_choice hh), ihb]
    simp [openBlock]
  | @next line cs ts t f b us _ hh _ ihc ihb =>
    obtain ⟨done, g, c, rfl, hts⟩ := ihc
    refine ⟨done ++ [(g, c)], f, b, rfl, fun a => ?_⟩
    rw [run_append _ (hts a), run_cons us (step_clause hh), ihb]
    simp

private theorem Derives.snoc {b : Block} {s : Segment} {ts us : List Token}
    (hb : Derives (.body b) ts)
    (hs : Derives (.segment s) us) : Derives (.body (b ++ [s])) (ts ++ us) := by
  induction b generalizing ts with
  | nil =>
    cases hb
    simpa using Derives.more hs Derives.empty
  | cons r b ih =>
    cases hb with
    | more hr hb =>
      rw [List.append_assoc]
      exact Derives.more hr (ih hb)

/-- The tokens from the tag of an open block up to its latest branch. -/
inductive Opened : Opening → Nat → List Token → Prop where
  | choice {t f} : t.IsHeader ['i', 'f'] f → Opened (.clause [] f) t.line [t]
  | clause {line cs ts t f} : Derives (.clauses line cs) ts → t.IsHeader ['e', 'l', 'i', 'f'] f →
      Opened (.clause cs f) line (ts ++ [t])
  | otherwise {line cs ts t} : Derives (.clauses line cs) ts → t.IsWord ['e', 'l', 's', 'e'] →
      Opened (.otherwise cs) line (ts ++ [t])
  | loop {t targets unpack items} : t.IsLoop targets unpack items →
      Opened (.loop targets unpack items) t.line [t]

/-- The tokens taken in so far: for every open block those before it and those that opened it, and
behind them a body. -/
inductive Held : List Frame → Block → List Token → Prop where
  | body {b ts} : Derives (.body b.reverse) ts → Held [] b ts
  | block {line opening before frames b ts us vs} : Held frames before ts →
      Opened opening line us → Derives (.body b.reverse) vs →
      Held (⟨line, opening, before⟩ :: frames) b (ts ++ us ++ vs)

namespace Held

private theorem push {frames : List Frame} {b : Block} {s : Segment} {ts us : List Token}
    (h : Held frames b ts) (hs : Derives (.segment s) us) : Held frames (s :: b) (ts ++ us) := by
  cases h with
  | body hb =>
    apply Held.body
    rw [List.reverse_cons]
    exact hb.snoc hs
  | block hf ho hb =>
    rw [List.append_assoc]
    apply Held.block hf ho
    rw [List.reverse_cons]
    exact hb.snoc hs

private theorem openBlock {frames : List Frame} {b : Block} {line : Nat} {opening : Opening}
    {ts us : List Token} (h : Held frames b ts) (ho : Opened opening line us) :
    Held (⟨line, opening, b⟩ :: frames) [] (ts ++ us) := by
  simpa using Held.block (b := []) h ho Derives.empty

end Held

/-- The clauses of an open choice together with the body behind its latest branch. -/
private theorem Opened.clauses {done : List (Formula × Block)} {f : Formula} {line : Nat}
    {b : Block} {ts us : List Token} (h : Opened (.clause done f) line ts)
    (hb : Derives (.body b) us) :
    Derives (.clauses line (done ++ [(f, b)])) (ts ++ us) := by
  cases h with
  | choice hh => exact Derives.first hh hb
  | clause hc hh =>
    rw [List.append_assoc]
    exact Derives.next hc hh hb

namespace Assembly

private theorem header_held {a a' : Assembly} {t : Token} {h : Header} {ts : List Token}
    (hk : t.kind = .block) (hh : h.Form t.content.toList) (hheld : Held a.frames a.current ts)
    (hstep : a.header t.line h = .ok a') : Held a'.frames a'.current (ts ++ [t]) := by
  cases hh with
  | choice hw =>
    obtain ⟨f, hf, he⟩ := bind_eq_ok.mp hstep
    cases he
    exact hheld.openBlock (Opened.choice (isHeader_of_tag hk hw hf))
  | @loop names items _ hl =>
    obtain ⟨targets, ht, hrest⟩ := bind_eq_ok.mp hstep
    obtain ⟨f, hf, he⟩ := bind_eq_ok.mp hrest
    cases he
    have hparse : Formula.parse (String.ofList items) = .ok f := onLine_eq_ok.mp hf
    have hs := Formula.source_of_parse hparse
    have htargets := onLine_eq_ok.mp ht
    have hnames : Text.Solid names := by
      by_contra hsolid
      exact Targets.parse_blanks (hl.names_blank hsolid) targets htargets
    have hitems : Text.Solid items := by
      by_contra hsolid
      exact Formula.parse_blanks (hl.items_blank hsolid) f hparse
    apply hheld.openBlock
    apply Opened.loop
    refine ⟨hk, names, ?_, htargets, rfl, by rw [hs]; exact hparse⟩
    rw [hs, String.toList_ofList]
    exact loopForm_iff.mpr ⟨hl, hnames, hitems⟩
  | insertion hw =>
    obtain ⟨f, hf, he⟩ := bind_eq_ok.mp hstep
    cases he
    exact hheld.push (Derives.insertion (isHeader_of_tag hk hw hf))

section Within

variable {frames : List Frame} {line : Nat} {before b : Block} {a' : Assembly} {t : Token}
  {ts us vs : List Token} (hk : t.kind = .block) (hf : Held frames before ts)
include hk hf

private theorem clause_held {done : List (Formula × Block)} {f : Formula}
    (hclauses : Derives (.clauses line (done ++ [(f, b.reverse)])) (us ++ vs))
    (hstep : within ⟨line, .clause done f, before⟩ frames b.reverse t.line t.content.toList =
      .ok a') : Held a'.frames a'.current (ts ++ us ++ vs ++ [t]) := by
  simp only [within] at hstep
  cases hr : Branch.read? t.content.toList with
  | none => simp [hr] at hstep
  | some branch =>
    rw [hr] at hstep
    have hform := Branch.read?_iff.mp hr
    generalize hw : t.content.toList = content at hform
    cases hform with
    | clause htag =>
      obtain ⟨g, hg, he⟩ := bind_eq_ok.mp hstep
      cases he
      have ho := Opened.clause hclauses (isHeader_of_tag hk (hw ▸ htag) hg)
      simpa [List.append_assoc] using hf.openBlock ho
    | otherwise =>
      cases hstep
      have ho := Opened.otherwise hclauses (t := t) ⟨hk, hw⟩
      simpa [List.append_assoc] using hf.openBlock ho
    | ending =>
      cases hstep
      have hs := Derives.choice hclauses (t := t) ⟨hk, hw⟩
      simpa [close, List.append_assoc] using hf.push hs

private theorem otherwise_held {clauses : List (Formula × Block)}
    (ho : Opened (.otherwise clauses) line us) (hb : Derives (.body b.reverse) vs)
    (hstep : within ⟨line, .otherwise clauses, before⟩ frames b.reverse t.line t.content.toList =
      .ok a') : Held a'.frames a'.current (ts ++ us ++ vs ++ [t]) := by
  simp only [within] at hstep
  cases hr : Branch.read? t.content.toList with
  | none => simp [hr] at hstep
  | some branch =>
    rw [hr] at hstep
    have hform := Branch.read?_iff.mp hr
    generalize hw : t.content.toList = content at hform
    cases hform with
    | clause => cases hstep
    | otherwise => cases hstep
    | ending =>
      cases hstep
      cases ho with
      | otherwise hc helse =>
        have hs := Derives.choiceElse hc helse hb (u := t) ⟨hk, hw⟩
        simpa [close, List.append_assoc] using hf.push hs

private theorem loop_held {targets : List String} {unpack : Bool} {items : Formula}
    (ho : Opened (.loop targets unpack items) line us) (hb : Derives (.body b.reverse) vs)
    (hstep : within ⟨line, .loop targets unpack items, before⟩ frames b.reverse t.line
      t.content.toList = .ok a') : Held a'.frames a'.current (ts ++ us ++ vs ++ [t]) := by
  simp only [within] at hstep
  split at hstep
  · rename_i hw
    cases hstep
    cases ho with
    | loop hl =>
      have hs := Derives.loop hl hb (u := t) ⟨hk, hw⟩
      simpa [close, List.append_assoc] using hf.push hs
  · simp at hstep

end Within

private theorem within_held {frame : Frame} {frames : List Frame} {b : Block} {a' : Assembly}
    {t : Token} {ts : List Token} (hk : t.kind = .block) (hheld : Held (frame :: frames) b ts)
    (hstep : within frame frames b.reverse t.line t.content.toList = .ok a') :
    Held a'.frames a'.current (ts ++ [t]) := by
  cases hheld with
  | @block line opening before _ _ ts us vs hf ho hb =>
    cases opening with
    | clause done f => exact clause_held hk hf (ho.clauses hb) hstep
    | otherwise clauses => exact otherwise_held hk hf ho hb hstep
    | loop targets unpack items => exact loop_held hk hf ho hb hstep
    | captured tag => nomatch ho

private theorem step_held {a a' : Assembly} {t : Token} {ts : List Token}
    (hheld : Held a.frames a.current ts) (hstep : step true [] a t = .ok a') :
    Held a'.frames a'.current (ts ++ [t]) := by
  unfold step at hstep
  split at hstep
  · cases hstep
    exact hheld.push (Derives.text ‹_›)
  · obtain ⟨f, hf, he⟩ := bind_eq_ok.mp hstep
    cases he
    exact hheld.push (Derives.output ‹_› (onLine_eq_ok.mp hf))
  · rename_i hk
    rw [read?_builtin] at hstep
    cases hb : Header.builtin? t.content.toList with
    | some h =>
      rw [hb] at hstep
      exact header_held hk (Header.builtin?_iff.mp hb) hheld hstep
    | none =>
      rw [hb] at hstep
      cases a with
      | mk frames b =>
        cases frames with
        | nil => simp at hstep
        | cons frame frames => exact within_held hk hheld hstep

theorem run_held {a a' : Assembly} {ts us : List Token} (hheld : Held a.frames a.current ts)
    (hrun : us.foldlM (step true []) a = .ok a') : Held a'.frames a'.current (ts ++ us) := by
  induction us generalizing a ts with
  | nil =>
    cases hrun
    simpa using hheld
  | cons t us ih =>
    rw [List.foldlM_cons] at hrun
    obtain ⟨b, hstep, hrest⟩ := bind_eq_ok.mp hrun
    have h := ih (step_held hheld hstep) hrest
    rwa [List.append_assoc] at h

theorem ofTokens_eq_ok {ts : List Token} {b : Block} :
    ofTokens true [] ts = .ok b ↔ Derives (.body b) ts := by
  constructor
  · intro h
    obtain ⟨a, hrun, hfinish⟩ := bind_eq_ok.mp h
    have hempty : Held start.frames start.current [] := Held.body Derives.empty
    have hheld := run_held hempty hrun
    cases a with
    | mk frames current =>
      cases frames with
      | nil =>
        cases hfinish
        cases hheld with
        | body hb => exact hb
      | cons frame frames => simp [finish] at hfinish
  · intro h
    apply bind_eq_ok.mpr
    refine ⟨⟨[], b.reverse⟩, ?_, ?_⟩
    · simpa [start] using h.taken start
    · simp [finish]

end Assembly

private def Part.marks : Part → List Mark
  | .segment s => Mark.ofStep s.line s.item
  | .body b => Mark.ofBlock b
  | .clauses line cs => Mark.ofClauses (.choice line) cs

private theorem Mark.ofClauses_append (tag : String → Mark) {cs : List (Formula × Block)}
    {f : Formula} {b : Block} (hcs : cs ≠ []) :
    ofClauses tag (cs ++ [(f, b)]) = ofClauses tag cs ++ .clause f.source :: ofBlock b := by
  induction cs generalizing tag with
  | nil => exact absurd rfl hcs
  | cons c cs ih =>
    obtain ⟨g, body⟩ := c
    cases cs with
    | nil => simp [ofClauses]
    | cons c cs =>
      have h := ih .clause (by simp)
      simp only [List.cons_append, ofClauses, List.append_assoc] at h ⊢
      rw [h]

private theorem Derives.clauses_ne_nil {line : Nat} {cs : List (Formula × Block)} {ts : List Token}
    (h : Derives (.clauses line cs) ts) : cs ≠ [] := by
  cases h <;> simp

/-- The marks of a tree account for the tokens it was derived from, one by one and in order. -/
private theorem Derives.marks {p : Part} {ts : List Token} (h : Derives p ts) :
    List.Forall₂ Mark.Of p.marks ts := by
  induction h with
  | empty => exact .nil
  | more _ _ ihs ihb => exact List.rel_append ihs ihb
  | text hk => exact .cons ⟨hk, rfl, rfl⟩ .nil
  | output hk hf => exact .cons ⟨hk, rfl, (Formula.source_of_parse hf).symm⟩ .nil
  | insertion hh => exact .cons ⟨hh.1, rfl, hh.2.1⟩ .nil
  | choice _ hend ihc =>
    rw [Part.marks, Mark.ofStep]
    exact List.rel_append ihc (.cons hend .nil)
  | choiceElse _ helse _ hend ihc ihb =>
    rw [Part.marks, Mark.ofStep]
    exact List.rel_append ihc (.cons helse (List.rel_append ihb (.cons hend .nil)))
  | loop hl _ hend ihb =>
    obtain ⟨hk, names, hform, ht, hu, _⟩ := hl
    rw [Part.marks, Mark.ofStep]
    exact .cons ⟨hk, rfl, names, hform, ht, hu⟩ (List.rel_append ihb (.cons hend .nil))
  | first hh _ ihb =>
    rw [Part.marks, Mark.ofClauses, Mark.ofClauses, List.append_nil]
    exact .cons ⟨hh.1, rfl, hh.2.1⟩ ihb
  | next hc hh _ ihc ihb =>
    rw [Part.marks, Mark.ofClauses_append _ hc.clauses_ne_nil]
    exact List.rel_append ihc (.cons ⟨hh.1, hh.2.1⟩ ihb)

namespace Dialect

private theorem compile_eq_ok {delimiters : Delimiters} {escapes : EscapeTable}
    {source name : String}
    {defaults : Dict Value} {m : Metadata Value} {serial : Nat} {t : Template} :
    (⟨delimiters, true, [], escapes⟩ : Dialect).compile source name defaults m serial = .ok t ↔
      ∃ b, Derives (.body b) (Token.scan delimiters source) ∧
        t = ⟨b, defaults, (⟨delimiters, true, [], escapes⟩ : Dialect).metadata name m, serial⟩ := by
  constructor
  · intro h
    obtain ⟨b, hb, he⟩ := Assembly.bind_eq_ok.mp h
    refine ⟨b, Assembly.ofTokens_eq_ok.mp ?_, (Except.ok.inj he).symm⟩
    unfold assemble at hb
    split at hb
    · rename_i body hbody
      cases hb
      exact hbody
    · simp at hb
  · rintro ⟨b, hb, rfl⟩
    apply Assembly.bind_eq_ok.mpr
    refine ⟨b, ?_, rfl⟩
    rw [assemble, tokens, Assembly.ofTokens_eq_ok.mpr hb]

/-- A source compiles exactly if the block grammar derives its tokens. The tree is that of the only
derivation, and its marks give the tokens again. -/
theorem compile_iff_derives (delimiters : Delimiters) (escapes : EscapeTable)
    (source name : String) (defaults : Dict Value) (m : Metadata Value) (serial : Nat) :
    let d : Dialect := ⟨delimiters, true, [], escapes⟩
    ((∃ t, d.compile source name defaults m serial = .ok t) ↔
      ∃ b, Derives (.body b) (d.tokens source)) ∧
    ∀ t, d.compile source name defaults m serial = .ok t →
      Derives (.body t.body) (d.tokens source) ∧
      (∀ b, Derives (.body b) (d.tokens source) → b = t.body) ∧
      List.Forall₂ Mark.Of (Mark.ofBlock t.body) (d.tokens source) := by
  intro d
  refine ⟨⟨?_, ?_⟩, ?_⟩
  · rintro ⟨t, ht⟩
    obtain ⟨b, hb, _⟩ := compile_eq_ok.mp ht
    exact ⟨b, hb⟩
  · rintro ⟨b, hb⟩
    exact ⟨_, compile_eq_ok.mpr ⟨b, hb, rfl⟩⟩
  · intro t ht
    obtain ⟨b, hb, rfl⟩ := compile_eq_ok.mp ht
    refine ⟨hb, ?_, hb.marks⟩
    intro c hc
    have hsame := (Assembly.ofTokens_eq_ok.mpr hc).symm.trans (Assembly.ofTokens_eq_ok.mpr hb)
    exact Except.ok.inj hsame

end Dialect

end Stencil
