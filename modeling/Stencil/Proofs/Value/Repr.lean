import Stencil.Expr.Eval
import Stencil.Proofs.Expr.Phrases
import Stencil.Value.Text

/-! # Shown values are read back -/

namespace Stencil

open Lexeme

structure Lexeme.IsSign (l : Lexeme) (c : Char) : Prop where
  sound : l.Sound
  parts : l.parts = true
  free : ∀ next, l.MayPrecede next
  spelling : l.spelling = [[c]]
  outside : inName c = false

/-- Lexemes that a text shows, whatever that parts operands stands behind. -/
structure Lexeme.Shows (ws : List Lexeme) (shown : List Char) : Prop where
  sound : ∀ l ∈ ws, l.Sound
  chain : ∀ l rest, l.parts = true → (l :: rest).IsChain MayPrecede →
    (ws ++ l :: rest).IsChain MayPrecede
  ending : ws.IsChain MayPrecede
  layout : ∀ texts back, Layout texts back → Quiet back →
    Layout (ws.flatMap spelling ++ texts) (shown ++ back)

namespace Lexeme.Shows

private theorem nil : Shows [] [] :=
  ⟨fun _ h => (List.not_mem_nil h).elim, fun _ _ _ h => h, .nil, fun _ _ h _ => h⟩

private theorem literal {v : Literal} {w : List Char} (hv : v.Plain)
    (hw : (Lexeme.literal v).spelling = [w]) : Shows [.literal v] w := by
  refine ⟨?_, ?_, .singleton _, ?_⟩
  · intro l hl
    cases List.mem_singleton.mp hl
    exact hv
  · intro l rest hl h
    exact .cons_cons (mayPrecede_of_closes rfl hl) h
  · intro texts back h hq
    rw [List.flatMap_singleton, hw]
    exact .word w h hq

private theorem sign {ws vs : List Lexeme} {shown shown' : List Char} {l : Lexeme} {c : Char}
    (hl : l.IsSign c) (h : Shows ws shown) (h' : Shows vs shown') :
    Shows (ws ++ l :: vs) (shown ++ c :: shown') := by
  refine ⟨?_, ?_, ?_, ?_⟩
  · simp only [List.forall_mem_append, List.forall_mem_cons]
    exact ⟨h.sound, hl.sound, h'.sound⟩
  · intro m rest hm hrest
    have hback := List.isChain_cons.mpr ⟨fun y _ => hl.free y, h'.chain m rest hm hrest⟩
    rw [List.append_assoc]
    exact h.chain l _ hl.parts hback
  · exact h.chain l vs hl.parts (List.isChain_cons.mpr ⟨fun y _ => hl.free y, h'.ending⟩)
  · intro texts back hb hq
    have hback := Layout.sign hl.outside (h'.layout texts back hb hq)
    have hquiet : Quiet (c :: (shown' ++ back)) := by
      intro d hd
      cases hd
      exact hl.outside
    have hall := h.layout _ _ hback hquiet
    simpa only [List.flatMap_append, List.flatMap_cons, hl.spelling, List.append_assoc,
      List.cons_append, List.nil_append] using hall

private theorem space {ws : List Lexeme} {shown : List Char} (h : Shows ws shown) :
    Shows ws (' ' :: shown) := by
  refine ⟨h.sound, h.chain, h.ending, fun texts back hb hq => ?_⟩
  simpa using Layout.gap gap_space (h.layout texts back hb hq)

private theorem scan {ws : List Lexeme} {shown : List Char} (h : Shows ws shown) :
    (Lexeme.scan shown).map (fun l => l.1.shape) = ws := by
  have hl := h.layout [] [] (.nil fun _ hc => by cases hc) fun _ hc => by cases hc
  rw [List.append_nil, List.append_nil] at hl
  exact scan_layout h.sound h.ending hl

end Lexeme.Shows

private theorem isSign_openSquare :
    openSquare.IsSign '[' := ⟨trivial, rfl, fun _ => trivial, rfl, rfl⟩
private theorem isSign_closeSquare :
    closeSquare.IsSign ']' := ⟨trivial, rfl, fun _ => trivial, rfl, rfl⟩
private theorem isSign_openBrace :
    openBrace.IsSign '\x7b' := ⟨trivial, rfl, fun _ => trivial, rfl, rfl⟩
private theorem isSign_closeBrace :
    closeBrace.IsSign '\x7d' := ⟨trivial, rfl, fun _ => trivial, rfl, rfl⟩
private theorem isSign_comma : comma.IsSign ',' := ⟨trivial, rfl, fun _ => trivial, rfl, rfl⟩
private theorem isSign_colon : colon.IsSign ':' := ⟨trivial, rfl, fun _ => trivial, rfl, rfl⟩
private theorem isSign_minus : minus.IsSign '-' := ⟨trivial, rfl, fun _ => trivial, rfl, rfl⟩

open Stencil.Expr

namespace Value

/-- Values that are written without real numbers, templates and functions. The least integer is
left out: its digits are beyond the integers. -/
inductive Plain : Value → Prop where
  | none : Plain .none
  | bool (b : Bool) : Plain (.bool b)
  | int {i : Int64} : i ≠ Int64.minValue → Plain (.int i)
  | text (s : String) : Plain (.text s)
  | list {items : List Value} : (∀ v ∈ items, Plain v) → Plain (.list items)
  | map {entries : List (String × Value)} : (Dict.keys entries).Nodup →
      (∀ entry ∈ entries, Plain entry.2) → Plain (.map entries)

/-- What is shown of the value is an expression that has this value everywhere. -/
def Written (v : Value) : Prop :=
  ∃ ws e, Shows ws v.shown ∧ Spells ws (.whole e) ∧ ∀ env, e.eval env = .ok v

private theorem written_literal {l : Literal} (h : l.Plain)
    (hs : (Lexeme.literal l).spelling = [(ofLiteral l).shown]) : (ofLiteral l).Written :=
  ⟨[.literal l], .literal l, .literal h hs, (Spells.literal l).whole_operand, fun _ => by rw [eval]⟩

private theorem written_int {i : Int64} (h : i ≠ Int64.minValue) : (int i).Written := by
  by_cases hi : i.toInt < 0
  · have hneg := Number.toInt_neg h
    have hplain : (Literal.int (-i)).Plain := by
      change 0 ≤ (-i).toInt
      omega
    have hshow := Shows.sign isSign_minus .nil (.literal hplain rfl)
    rw [List.nil_append, ← Number.integerText_neg h hi, ← shown_int] at hshow
    refine ⟨_, .unary .negate (.literal (.int (-i))), hshow, ?_, fun env => ?_⟩
    · exact (Spells.last [.negate] (.literal (.int (-i)))).operation
    · have hfit : Number.fit? (-(-i).toInt) = some i := by
        rw [hneg, Int.neg_neg, Number.fit?_toInt]
      simp only [eval, bind, Except.bind, unary, ofLiteral, number?, hfit, fitted]
  · have hplain : (Literal.int i).Plain := Int.not_lt.mp hi
    exact written_literal hplain rfl

private theorem intercalate_comma (a b : List Char) (texts : List (List Char)) :
    [',', ' '].intercalate (a :: b :: texts) =
      a ++ ',' :: ' ' :: [',', ' '].intercalate (b :: texts) := by
  rw [List.intercalate_cons_cons, List.append_assoc, List.cons_append, List.singleton_append]

private theorem written_items {vs : List Value} (h : ∀ v ∈ vs, v.Written) :
    ∃ ws es, Shows ws ([',', ' '].intercalate (shownItems vs)) ∧ Spells ws (.items es) ∧
      ∀ env, evalItems env es = .ok vs := by
  induction vs with
  | nil => exact ⟨[], [], .nil, .noItems, fun _ => rfl⟩
  | cons v vs ih =>
    obtain ⟨⟨ws, e, hshow, hspell, heval⟩, h⟩ := List.forall_mem_cons.mp h
    cases vs with
    | nil =>
      refine ⟨ws, [e], ?_, .lastItem hspell, fun env => ?_⟩
      · rw [shownItems_cons, shownItems, List.intercalate_singleton]
        exact hshow
      · simp only [evalItems, heval, bind, Except.bind, pure, Except.pure]
    | cons v' vs =>
      obtain ⟨ws', es, hshows, hspells, hevals⟩ := ih h
      refine ⟨ws ++ .comma :: ws', e :: es, ?_, .item hspell hspells, fun env => ?_⟩
      · rw [shownItems_cons, shownItems_cons, intercalate_comma]
        exact .sign isSign_comma hshow hshows.space
      · simp only [evalItems, heval, hevals, bind, Except.bind, pure, Except.pure]

def Sets (es : List (Expr × Expr)) (entries : Dict Value) : Prop :=
  ∀ env done, (∀ key ∈ Dict.keys entries, key ∉ Dict.keys done) →
    evalEntries env done es = .ok (done ++ entries)

private theorem Sets.nil : Sets [] [] := by
  intro env done _
  rw [evalEntries, List.append_nil]

private theorem Sets.cons {key : String} {v : Value} {e : Expr} {entries : Dict Value}
    {es : List (Expr × Expr)} (hkey : key ∉ Dict.keys entries) (heval : ∀ env, e.eval env = .ok v)
    (h : Sets es entries) : Sets ((.literal (.text key), e) :: es) ((key, v) :: entries) := by
  intro env done hfree
  obtain ⟨hk, hrest⟩ := List.forall_mem_cons.mp hfree
  have hname : eval env (.literal (.text key)) = .ok (text key) := by rw [eval, ofLiteral]
  have hnext : ∀ k ∈ Dict.keys entries, k ∉ Dict.keys (done ++ [(key, v)]) := by
    intro k hm
    have hne : k ≠ key := fun he => hkey (he ▸ hm)
    have hdone := hrest k hm
    simp only [Dict.keys, List.map_append, List.map_cons, List.map_nil, List.mem_append,
      List.mem_singleton, not_or]
    exact ⟨hdone, hne⟩
  have hset := h env _ hnext
  rw [List.append_assoc] at hset
  simp only [evalEntries, hname, heval, bind, Except.bind, Value.key, Dict.set_of_not_mem hk]
  exact hset

private theorem written_entries {entries : List (String × Value)} (hn : (Dict.keys entries).Nodup)
    (h : ∀ entry ∈ entries, entry.2.Written) :
    ∃ ws es, Shows ws ([',', ' '].intercalate (shownEntries entries)) ∧ Spells ws (.entries es) ∧
      Sets es entries := by
  induction entries with
  | nil => exact ⟨[], [], .nil, .noEntries, .nil⟩
  | cons entry entries ih =>
    obtain ⟨key, v⟩ := entry
    obtain ⟨⟨ws, e, hshow, hspell, heval⟩, h⟩ := List.forall_mem_cons.mp h
    obtain ⟨hkey, hn⟩ := List.nodup_cons.mp hn
    have hquoted : Shows [.literal (.text key)] (Text.quoted key.toList) := .literal trivial rfl
    have hname := (Spells.literal (.text key)).whole_operand
    have hentry := Shows.sign isSign_colon hquoted hshow.space
    cases entries with
    | nil =>
      refine ⟨_, [(.literal (.text key), e)], ?_, .lastEntry hname hspell, .cons hkey heval .nil⟩
      rw [shownEntries_cons, shownEntries, List.intercalate_singleton]
      exact hentry
    | cons entry' entries =>
      obtain ⟨ws', es, hshows, hspells, hsets⟩ := ih hn h
      refine ⟨_, (.literal (.text key), e) :: es, ?_, .entry hname hspell hspells,
        .cons hkey heval hsets⟩
      have hall := Shows.sign isSign_comma hentry hshows.space
      rw [List.append_assoc] at hall
      rw [shownEntries_cons]
      obtain ⟨key', v'⟩ := entry'
      rw [shownEntries_cons, intercalate_comma]
      exact hall

private theorem Plain.written {v : Value} (h : v.Plain) : v.Written := by
  induction h with
  | none => exact written_literal (l := .none) trivial rfl
  | bool b => exact written_literal (l := .bool b) trivial (by cases b <;> rfl)
  | int h => exact written_int h
  | text s => exact written_literal (l := .text s) trivial rfl
  | @list items _ ih =>
    obtain ⟨ws, es, hshow, hspell, heval⟩ := written_items ih
    have hopen := Shows.sign isSign_openSquare .nil (.sign isSign_closeSquare hshow .nil)
    refine ⟨_, .list es, hopen, hspell.list.whole_operand, fun env => ?_⟩
    simp only [eval, heval, bind, Except.bind, pure, Except.pure]
  | @map entries hn _ ih =>
    obtain ⟨ws, es, hshow, hspell, hsets⟩ := written_entries hn ih
    have hopen := Shows.sign isSign_openBrace .nil (.sign isSign_closeBrace hshow .nil)
    refine ⟨_, .dict es, hopen, hspell.dict.whole_operand, fun env => ?_⟩
    have heval := hsets env [] fun _ _ hm => by cases hm
    simp only [eval, heval, bind, Except.bind, pure, Except.pure, List.nil_append]

/-- What is shown of a value without real numbers, templates and functions is read as an expression
that has the same value in every environment, so no two such values are shown alike. -/
theorem repr_round_trip {v : Value} (h : v.Plain) :
    (∃ f, Formula.parse v.repr = .ok f ∧ ∀ env, f.tree.eval env = .ok v) ∧
      ∀ w : Value, w.Plain → w.repr = v.repr → w = v := by
  have hread : ∀ {v : Value}, v.Plain →
      ∃ e, Expr.parse v.repr = .ok e ∧ ∀ env, e.eval env = .ok v := by
    intro v hv
    obtain ⟨ws, e, hshow, hspell, heval⟩ := hv.written
    refine ⟨e, hspell.parse ?_, heval⟩
    rw [repr, String.toList_ofList]
    exact hshow.scan
  obtain ⟨e, hparse, heval⟩ := hread h
  refine ⟨⟨⟨v.repr, e⟩, ?_, heval⟩, ?_⟩
  · rw [Formula.parse, hparse]
    rfl
  · intro w hw he
    obtain ⟨e', hparse', heval'⟩ := hread hw
    rw [he, hparse] at hparse'
    cases hparse'
    let env : Environment := ⟨fun _ => Option.none, fun _ _ => .error .overflow⟩
    have hsame : (Except.ok w : Except EvalError Value) = .ok v := by rw [← heval' env, heval env]
    exact Except.ok.inj hsame

theorem repr_map_of_quotes :
    let v : Value := map [("'\"\\", list [int (-7), none, text "é'\n"]), ("", map [])]
    (v.Plain ∧ v.repr = "\x7b'\\'\"\\\\': [-7, None, \"é'\\n\"], '': \x7b\x7d\x7d") ∧
      (∃ f, Formula.parse v.repr = .ok f ∧ ∀ env, f.tree.eval env = .ok v) ∧
        ∀ w : Value, w.Plain → w.repr = v.repr → w = v := by
  intro v
  have hitems : ∀ w ∈ [int (-7), none, text "é'\n"], w.Plain := by
    simp only [List.forall_mem_cons]
    exact ⟨.int (by decide), .none, .text _, fun _ h => (List.not_mem_nil h).elim⟩
  have hempty : (map []).Plain := .map .nil fun _ h => (List.not_mem_nil h).elim
  have hplain : v.Plain := by
    refine .map (by decide) ?_
    simp only [List.forall_mem_cons]
    exact ⟨.list hitems, hempty, fun _ h => (List.not_mem_nil h).elim⟩
  exact ⟨⟨hplain, by decide +kernel⟩, repr_round_trip hplain⟩

end Value

end Stencil
