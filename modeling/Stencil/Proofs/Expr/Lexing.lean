import Stencil.Proofs.Expr.Names
import Stencil.Proofs.Expr.Writing
import Stencil.Proofs.Number.Numeral
import Stencil.Proofs.Text.Quoted

/-! # Lexemes of written expressions -/

namespace Stencil

open Number (Denotes)
open Text (takeWhile_run dropWhile_run)

namespace Lexeme

/-- Lexemes that can be told from their spelling. -/
def Sound : Lexeme → Prop
  | literal v => v.Plain
  | oversized _ => False
  | name n => IsName n
  | between op => op ≠ .add ∧ op ≠ .sub ∧ op ≠ .notWithin
  | notWithin place => place = 0
  | stray => False
  | _ => True

def opens : Lexeme → Bool
  | literal _ => true
  | name _ => true
  | openParen => true
  | openSquare => true
  | openBrace => true
  | _ => false

/-- What keeps a lexeme from reaching into the next one. -/
def MayPrecede (l next : Lexeme) : Prop :=
  match l, next with
  | literal _, literal _ => False
  | literal _, dot => False
  | between _, next => next.opens = true
  | not, next => next.opens = true
  | _, _ => True

def nextWord (cs : List Char) : String :=
  String.ofList (word (cs.dropWhile isGap))

def Ahead (l : Lexeme) (rest : List Char) : Prop :=
  match l with
  | literal _ => rest.head? ≠ some '.'
  | between _ => rest.head? ≠ some '=' ∧ rest.head? ≠ some '*' ∧ rest.head? ≠ some '/' ∧
      nextWord rest ≠ "not"
  | not => nextWord rest ≠ "in"
  | _ => True

private theorem apart_head {cs rest : List Char} (hn : cs ≠ []) (h : ∀ c ∈ cs, inName c = true)
    (ha : Apart cs rest) : ∀ d ∈ rest.head?, inName d = false := by
  intro d hd
  have hc := h _ (List.getLast_mem hn)
  have hl := ha _ (List.getLast?_eq_some_getLast hn) d hd
  simpa [hc] using hl

section Words

variable {c : Char} {t rest : List Char}

private theorem word_run (h : ∀ d ∈ c :: t, inName d = true) (ha : Apart (c :: t) rest) :
    word (c :: t ++ rest) = c :: t :=
  takeWhile_run h (apart_head (List.cons_ne_nil c t) h ha)

private theorem first_word (place : Nat) (hc : startsName c = true) (ht : ∀ d ∈ t, inName d = true)
    (ha : Apart (c :: t) rest) : first place c (t ++ rest) = ofWord place (c :: t) rest := by
  have hall : ∀ d ∈ c :: t, inName d = true :=
    List.forall_mem_cons.mpr ⟨startsName_inName hc, ht⟩
  have hw : word (t ++ rest) = t :=
    takeWhile_run ht (apart_head (List.cons_ne_nil c t) hall ha)
  rw [first, if_pos hc, hw, List.drop_left]

end Words

theorem ofWord_name {place : Nat} {w rest : List Char} (h : String.ofList w ∉ keywords) :
    ofWord place w rest = (name (String.ofList w), w.length) := by
  simp only [keywords, List.mem_cons, not_or] at h
  unfold ofWord
  split <;> simp_all

theorem drop_gap (cs : List Char) : cs.drop (cs.takeWhile isGap).length = cs.dropWhile isGap := by
  calc
    cs.drop (cs.takeWhile isGap).length =
        (cs.takeWhile isGap ++ cs.dropWhile isGap).drop (cs.takeWhile isGap).length := by
      rw [List.takeWhile_append_dropWhile]
    _ = cs.dropWhile isGap := List.drop_left

theorem ofWord_is (place : Nat) (rest : List Char) :
    ofWord place ['i', 's'] rest =
      if nextWord rest = "not" then
        (between .notSame, 2 + (rest.takeWhile isGap).length + (word (rest.dropWhile isGap)).length)
      else (between .same, 2) := by
  rw [nextWord, ← drop_gap]
  rfl

theorem ofWord_not (place : Nat) (rest : List Char) :
    ofWord place ['n', 'o', 't'] rest =
      if nextWord rest = "in" then
        (notWithin (place + (3 + (rest.takeWhile isGap).length)),
          3 + (rest.takeWhile isGap).length + (word (rest.dropWhile isGap)).length)
      else (not, 3) := by
  rw [nextWord, ← drop_gap]
  rfl

theorem placesLength_zero {cs : List Char} (h : cs.head? ≠ some '.') : placesLength cs = 0 := by
  unfold placesLength
  split
  · exact (h rfl).elim
  · rfl

private theorem exponentLength_zero {cs : List Char} (h : ∀ d ∈ cs.head?, inName d = false) :
    exponentLength cs = 0 := by
  cases cs with
  | nil => rfl
  | cons e cs =>
    have he := h e rfl
    have hne : ¬ (e = 'e' ∨ e = 'E') := by
      rintro (rfl | rfl) <;> exact absurd he (by decide)
    simp only [exponentLength, if_neg hne]

def Found (place : Nat) (w rest : List Char) (l : Lexeme) : Prop :=
  ∃ c t, w = c :: t ∧ isGap c = false ∧ first place c (t ++ rest) = (l, w.length)

def numeral (run : List Char) : Lexeme :=
  match Number.readInteger? run with
  | some i => literal (.int i)
  | none => oversized (String.ofList run)

/-- Nothing behind digits that makes them longer or real. -/
structure EndsDigits (rest : List Char) : Prop where
  digit : ∀ d ∈ rest.head?, d.isDigit = false
  places : placesLength rest = 0
  exponent : exponentLength rest = 0

theorem EndsDigits.of_head {rest : List Char} (h : ∀ d ∈ rest.head?, inName d = false)
    (hp : rest.head? ≠ some '.') : EndsDigits rest := by
  refine ⟨fun d hd => ?_, placesLength_zero hp, exponentLength_zero h⟩
  cases hdigit : d.isDigit with
  | false => rfl
  | true => rw [← h d hd, isDigit_inName hdigit]

theorem numeral_of_eq {run : List Char} {n : Nat} {i : Int64} (h : Denotes run n)
    (hi : i.toInt = n) : numeral run = literal (.int i) := by
  rw [numeral, h.readInteger?, ← hi, Number.fit?_toInt]

section Found

variable {place : Nat} {rest : List Char}

theorem found_numeral (place : Nat) {run : List Char} {n : Nat} (h : Denotes run n)
    (hr : EndsDigits rest) : Found place run rest (numeral run) := by
  obtain ⟨c, t, rfl⟩ := List.exists_cons_of_ne_nil h.ne_nil
  have hc := h.digits c List.mem_cons_self
  refine ⟨c, t, rfl, inName_not_gap (isDigit_inName hc), ?_⟩
  rw [first, isDigit_not_startsName hc, if_neg (by decide), if_pos hc, ← List.cons_append]
  have hrun : (c :: t ++ rest).takeWhile Char.isDigit = c :: t := takeWhile_run h.digits hr.digit
  simp only [number, hrun, List.drop_left, hr.places, Nat.add_zero, hr.exponent, if_pos, numeral]
  cases Number.readInteger? (c :: t) <;> rfl

private theorem found_number {i : Int64} (hi : 0 ≤ i.toInt) (ha : Apart (Number.integerText i) rest)
    (hp : rest.head? ≠ some '.') : Found place (Number.integerText i) rest (literal (.int i)) := by
  have hdenotes := Number.denotes_integerText hi
  have hhead := apart_head hdenotes.ne_nil (fun c hc => isDigit_inName (hdenotes.digits c hc)) ha
  rw [← numeral_of_eq hdenotes (Int.natAbs_of_nonneg hi).symm]
  exact found_numeral place hdenotes (.of_head hhead hp)

private theorem found_quoted (s : String) :
    Found place (Text.quoted s.toList) rest (literal (.text s)) := by
  have hm := Text.quoteMark_cases s.toList
  refine ⟨Text.quoteMark s.toList,
    s.toList.flatMap (Text.escaped (Text.quoteMark s.toList)) ++ [Text.quoteMark s.toList],
    rfl, ?_, ?_⟩
  · rcases hm with hm | hm <;> rw [hm] <;> decide
  have hq := Text.takeQuoted?_escaped hm s.toList rest
  have hu := Text.unescaped_escaped hm s.toList
  have hstart : startsName (Text.quoteMark s.toList) = false := by
    rcases hm with hm | hm <;> rw [hm] <;> decide
  have hdigit : (Text.quoteMark s.toList).isDigit = false := by
    rcases hm with hm | hm <;> rw [hm] <;> decide
  rw [List.append_assoc, List.singleton_append, first, hstart, hdigit, if_neg (by decide),
    if_neg (by decide), if_pos hm, hq]
  simp only [hu, String.ofList_toList, Text.quoted, List.length_append, List.length_cons,
    List.length_nil]
  congr 1
  omega

private theorem found_word {c : Char} {t : List Char} {l : Lexeme} (hc : startsName c = true)
    (ht : t.all inName = true) (ha : Apart (c :: t) rest)
    (hl : ofWord place (c :: t) rest = (l, (c :: t).length)) : Found place (c :: t) rest l := by
  refine ⟨c, t, rfl, inName_not_gap (startsName_inName hc), ?_⟩
  rw [first_word place hc (List.all_eq_true.mp ht) ha, hl]

private theorem found_name {n : String} (hs : IsName n) (ha : Apart n.toList rest) :
    Found place n.toList rest (name n) := by
  obtain ⟨c, t, hct, hc, ht, hk⟩ := hs
  have hn : String.ofList (c :: t) = n := by rw [← hct, String.ofList_toList]
  rw [hct] at ha ⊢
  refine found_word hc (List.all_eq_true.mpr ht) ha ?_
  rw [ofWord_name (by rw [hn]; exact hk), hn]

private theorem found_literal {v : Literal} {w : List Char} (hs : v.Plain)
    (hw : (literal v).spelling = [w]) (ha : Apart w rest) (hn : (literal v).Ahead rest) :
    Found place w rest (literal v) := by
  cases v with
  | none =>
    cases hw
    exact found_word (c := 'N') (t := ['o', 'n', 'e']) rfl rfl ha rfl
  | bool b =>
    cases b with
    | true =>
      cases hw
      exact found_word (c := 'T') (t := ['r', 'u', 'e']) rfl rfl ha rfl
    | false =>
      cases hw
      exact found_word (c := 'F') (t := ['a', 'l', 's', 'e']) rfl rfl ha rfl
  | int i =>
    cases hw
    exact found_number hs ha hn
  | real x => exact hs.elim
  | text s =>
    cases hw
    exact found_quoted s

private theorem found_between {op : BinaryOp} {w : List Char} (hs : (between op).Sound)
    (hw : (between op).spelling = [w]) (ha : Apart w rest) (hn : (between op).Ahead rest) :
    Found place w rest (between op) := by
  obtain ⟨hequals, hstar, hslash, hnot⟩ := hn
  -- A word stays apart from what follows; a sign needs its own second half not to follow.
  cases op with
  | or => cases hw; exact found_word (c := 'o') (t := ['r']) rfl rfl ha rfl
  | and => cases hw; exact found_word (c := 'a') (t := ['n', 'd']) rfl rfl ha rfl
  | within => cases hw; exact found_word (c := 'i') (t := ['n']) rfl rfl ha rfl
  | notWithin => exact (hs.2.2 rfl).elim
  | same =>
    cases hw
    refine found_word (c := 'i') (t := ['s']) rfl rfl ha ?_
    rw [ofWord_is, if_neg hnot]
    rfl
  | notSame => cases hw
  | eq => cases hw; exact ⟨'=', ['='], rfl, rfl, rfl⟩
  | ne => cases hw; exact ⟨'!', ['='], rfl, rfl, rfl⟩
  | lt => cases hw; exact ⟨'<', [], rfl, rfl, if_neg hequals⟩
  | le => cases hw; exact ⟨'<', ['='], rfl, rfl, rfl⟩
  | gt => cases hw; exact ⟨'>', [], rfl, rfl, if_neg hequals⟩
  | ge => cases hw; exact ⟨'>', ['='], rfl, rfl, rfl⟩
  | add => exact (hs.1 rfl).elim
  | sub => exact (hs.2.1 rfl).elim
  | mul => cases hw; exact ⟨'*', [], rfl, rfl, if_neg hstar⟩
  | div => cases hw; exact ⟨'/', [], rfl, rfl, if_neg hslash⟩
  | floorDiv => cases hw; exact ⟨'/', ['/'], rfl, rfl, rfl⟩
  | mod => cases hw; exact ⟨'%', [], rfl, rfl, rfl⟩
  | pow => cases hw; exact ⟨'*', ['*'], rfl, rfl, rfl⟩

private theorem found_spelled (place : Nat) {l : Lexeme} {w : List Char} (hs : l.Sound)
    (hw : l.spelling = [w]) (ha : Apart w rest) (hn : l.Ahead rest) : Found place w rest l := by
  cases l with
  | literal v => exact found_literal hs hw ha hn
  | oversized digits => exact hs.elim
  | name n =>
    cases hw
    exact found_name hs ha
  | between op => exact found_between hs hw ha hn
  | not =>
    cases hw
    refine found_word (c := 'n') (t := ['o', 't']) rfl rfl ha ?_
    rw [ofWord_not, if_neg hn]
    rfl
  | notWithin _ => cases hw
  | ifWord =>
    cases hw
    exact found_word (c := 'i') (t := ['f']) rfl rfl ha rfl
  | elseWord =>
    cases hw
    exact found_word (c := 'e') (t := ['l', 's', 'e']) rfl rfl ha rfl
  | stray => exact hs.elim
  | _ =>
    cases hw
    exact ⟨_, [], rfl, rfl, rfl⟩

end Found

theorem nextWord_gap {gap : List Char} (cs : List Char) (hg : Gap gap) :
    nextWord (gap ++ cs) = nextWord cs := by
  rw [nextWord, nextWord, List.dropWhile_append_of_pos hg]

theorem nextWord_word {c : Char} {t rest : List Char} (h : ∀ d ∈ c :: t, inName d = true)
    (ha : Apart (c :: t) rest) : nextWord (c :: t ++ rest) = String.ofList (c :: t) := by
  have hc : isGap c = false := inName_not_gap (h c List.mem_cons_self)
  rw [nextWord, List.cons_append, List.dropWhile_cons_of_neg (by simp [hc]), ← List.cons_append,
    word_run h ha]

theorem nextWord_other {c : Char} (rest : List Char) (hg : isGap c = false)
    (hc : inName c = false) : nextWord (c :: rest) = "" := by
  rw [nextWord, List.dropWhile_cons_of_neg (by simp [hg]), word,
    List.takeWhile_cons_of_neg (by simp [hc])]

structure Front (l : Lexeme) (c : Char) (t : List Char) : Prop where
  point : c = '.' → l = dot
  quiet : l.opens = true → c ≠ '=' ∧ c ≠ '*' ∧ c ≠ '/' ∧ ∀ rest, Apart (c :: t) rest →
    nextWord (c :: t ++ rest) ≠ "not" ∧ nextWord (c :: t ++ rest) ≠ "in"

private theorem front_word (l : Lexeme) {c : Char} {t : List Char}
    (h : ∀ d ∈ c :: t, inName d = true)
    (hnot : String.ofList (c :: t) ≠ "not") (hin : String.ofList (c :: t) ≠ "in") :
    Front l c t := by
  have hc := h c List.mem_cons_self
  have hne : ∀ d, inName d = false → c ≠ d := by
    rintro d hd rfl
    rw [hc] at hd
    cases hd
  refine ⟨fun he => (hne '.' rfl he).elim, fun _ => ?_⟩
  refine ⟨hne '=' rfl, hne '*' rfl, hne '/' rfl, fun rest ha => ?_⟩
  rw [nextWord_word h ha]
  exact ⟨hnot, hin⟩

private theorem front_bracket (l : Lexeme) {c : Char} (t : List Char) (hg : isGap c = false)
    (hc : inName c = false) (hp : c ≠ '.') (hs : c ≠ '=' ∧ c ≠ '*' ∧ c ≠ '/') : Front l c t := by
  refine ⟨fun he => (hp he).elim, fun _ => ⟨hs.1, hs.2.1, hs.2.2, fun rest _ => ?_⟩⟩
  rw [List.cons_append, nextWord_other _ hg hc]
  exact ⟨by decide, by decide⟩

private theorem front_closed {l : Lexeme} {c : Char} (t : List Char) (hl : l.opens = false)
    (hp : c = '.' → l = dot) : Front l c t :=
  ⟨hp, fun ho => by rw [hl] at ho; cases ho⟩

private theorem literal_front {v : Literal} (hs : v.Plain) :
    ∃ c t ws, (literal v).spelling = (c :: t) :: ws ∧ Front (literal v) c t := by
  cases v with
  | none =>
    refine ⟨'N', ['o', 'n', 'e'], [], rfl, ?_⟩
    exact front_word _ (List.all_eq_true.mp rfl) (by decide) (by decide)
  | bool b =>
    cases b with
    | true =>
      refine ⟨'T', ['r', 'u', 'e'], [], rfl, ?_⟩
      exact front_word _ (List.all_eq_true.mp rfl) (by decide) (by decide)
    | false =>
      refine ⟨'F', ['a', 'l', 's', 'e'], [], rfl, ?_⟩
      exact front_word _ (List.all_eq_true.mp rfl) (by decide) (by decide)
  | int i =>
    have hdenotes := Number.denotes_integerText hs
    obtain ⟨c, t, ht⟩ := List.exists_cons_of_ne_nil hdenotes.ne_nil
    have hd := ht ▸ hdenotes.digits
    have hne : ∀ s : String, s.toList.head?.all Char.isDigit = false →
        String.ofList (c :: t) ≠ s := by
      rintro s hs rfl
      simp [hd c List.mem_cons_self] at hs
    refine ⟨c, t, [], by rw [spelling, ht], ?_⟩
    exact front_word _ (fun d hm => isDigit_inName (hd d hm)) (hne "not" (by decide))
      (hne "in" (by decide))
  | real x => exact hs.elim
  | text s =>
    refine ⟨_, _, [], rfl, ?_⟩
    rcases Text.quoteMark_cases s.toList with hm | hm <;> rw [hm] <;>
      exact front_bracket _ _ (by decide) (by decide) (by decide) (by decide)

private theorem spelling_front {l : Lexeme} (hs : l.Sound) :
    ∃ c t ws, l.spelling = (c :: t) :: ws ∧ Front l c t := by
  cases l with
  | literal v => exact literal_front hs
  | oversized digits => exact hs.elim
  | name n =>
    obtain ⟨c, t, hct, hc, ht, hk⟩ := hs
    have hn : String.ofList (c :: t) = n := by rw [← hct, String.ofList_toList]
    have hne : ∀ s ∈ keywords, String.ofList (c :: t) ≠ s := by
      rintro s hs rfl
      rw [hn] at hs
      exact hk hs
    have hall : ∀ d ∈ c :: t, inName d = true :=
      List.forall_mem_cons.mpr ⟨startsName_inName hc, ht⟩
    refine ⟨c, t, [], by rw [spelling, hct], ?_⟩
    exact front_word _ hall (hne _ (by decide)) (hne _ (by decide))
  | between op =>
    cases op with
    | add => exact (hs.1 rfl).elim
    | sub => exact (hs.2.1 rfl).elim
    | notWithin => exact (hs.2.2 rfl).elim
    | _ => exact ⟨_, _, _, rfl, front_closed _ rfl fun h => absurd h (by decide)⟩
  | stray => exact hs.elim
  | dot => exact ⟨'.', [], [], rfl, front_closed _ rfl fun _ => rfl⟩
  | openParen =>
    exact ⟨'(', [], [], rfl, front_bracket _ _ (by decide) (by decide) (by decide) (by decide)⟩
  | openSquare =>
    exact ⟨'[', [], [], rfl, front_bracket _ _ (by decide) (by decide) (by decide) (by decide)⟩
  | openBrace =>
    exact ⟨'\x7b', [], [], rfl, front_bracket _ _ (by decide) (by decide) (by decide) (by decide)⟩
  | _ => exact ⟨_, _, _, rfl, front_closed _ rfl fun h => absurd h (by decide)⟩

private theorem ahead_gap {l : Lexeme} {gap : List Char} (hg : Gap gap) : l.Ahead gap := by
  have hhead : ∀ c, isGap c = false → gap.head? ≠ some c := by
    intro c hc h
    rw [hg c (List.mem_of_head? h)] at hc
    cases hc
  have hnext : nextWord gap = "" := by
    rw [← List.append_nil gap, nextWord_gap [] hg]
    rfl
  cases l with
  | literal v => exact hhead '.' rfl
  | between op =>
    refine ⟨hhead '=' rfl, hhead '*' rfl, hhead '/' rfl, ?_⟩
    rw [hnext]
    decide
  | not =>
    change nextWord gap ≠ "in"
    rw [hnext]
    decide
  | _ => trivial

private theorem ahead_layout {l next : Lexeme} {more : List (List Char)} {rest : List Char}
    (hs : next.Sound) (hm : l.MayPrecede next) (hl : Layout (next.spelling ++ more) rest) :
    l.Ahead rest := by
  obtain ⟨c, t, ws, hw, hf⟩ := spelling_front hs
  rw [hw, List.cons_append] at hl
  cases hl with
  | @cons gap _ back _ hgap hapart _ =>
    have hhead : ∀ d, isGap d = false → c ≠ d → (gap ++ (c :: t ++ back)).head? ≠ some d := by
      intro d hd hcd h
      cases gap with
      | nil => exact hcd (Option.some.inj h)
      | cons g gap =>
        have hgd : g = d := Option.some.inj h
        rw [← hgd, hgap g List.mem_cons_self] at hd
        cases hd
    cases l with
    | literal v =>
      refine hhead '.' rfl fun hc => ?_
      have hdot := hf.point hc
      rw [hdot] at hm
      exact hm
    | between op =>
      obtain ⟨he, hst, hsl, hq⟩ := hf.quiet hm
      refine ⟨hhead '=' rfl he, hhead '*' rfl hst, hhead '/' rfl hsl, ?_⟩
      rw [nextWord_gap _ hgap]
      exact (hq back hapart).1
    | not =>
      obtain ⟨-, -, -, hq⟩ := hf.quiet hm
      change nextWord (gap ++ (c :: t ++ back)) ≠ "in"
      rw [nextWord_gap _ hgap]
      exact (hq back hapart).2
    | _ => trivial

private theorem shape_of_sound {l : Lexeme} (hs : l.Sound) : l.shape = l := by
  cases l with
  | notWithin place =>
    have hp : place = 0 := hs
    rw [hp]
    rfl
  | _ => rfl

private theorem spelling_cases {l : Lexeme} (hs : l.Sound) :
    (∃ w, l.spelling = [w]) ∨ l = notWithin 0 ∨ l = between .notSame := by
  cases l with
  | literal v =>
    cases v with
    | bool b => cases b <;> exact .inl ⟨_, rfl⟩
    | _ => exact .inl ⟨_, rfl⟩
  | between op => cases op <;> first | exact .inl ⟨_, rfl⟩ | exact .inr (.inr rfl)
  | notWithin place =>
    have hp : place = 0 := hs
    rw [hp]
    exact .inr (.inl rfl)
  | _ => exact .inl ⟨_, rfl⟩

section Pairs

variable {gap rest : List Char}

private theorem gap_word {c : Char} {t : List Char} (hg : Gap gap)
    (h : ∀ d ∈ c :: t, inName d = true) (ha : Apart (c :: t) rest) :
    (gap ++ (c :: t ++ rest)).takeWhile isGap = gap ∧
      word ((gap ++ (c :: t ++ rest)).dropWhile isGap) = c :: t := by
  have hc : ∀ d ∈ (c :: t ++ rest).head?, isGap d = false := by
    intro d hd
    cases hd
    exact inName_not_gap (h c List.mem_cons_self)
  rw [takeWhile_run hg hc, dropWhile_run hg hc, word_run h ha]
  exact ⟨rfl, rfl⟩

private theorem first_pair (place : Nat) {l : Lexeme} {v w : List Char} (hs : l.Sound)
    (hw : l.spelling = [v, w]) (hg : Gap gap) (hf : Apart v (gap ++ (w ++ rest)))
    (ha : Apart w rest) :
    ∃ c t found, v = c :: t ∧ isGap c = false ∧ found.shape = l ∧
      first place c (t ++ (gap ++ (w ++ rest))) = (found, (v ++ (gap ++ w)).length) := by
  rcases spelling_cases hs with ⟨x, hx⟩ | rfl | rfl
  · rw [hx] at hw
    cases hw
  · have hp : [['n', 'o', 't'], ['i', 'n']] = [v, w] := hw
    cases hp
    obtain ⟨hgap, hword⟩ := gap_word (c := 'i') (t := ['n']) hg (List.all_eq_true.mp rfl) ha
    have hn : nextWord (gap ++ (['i', 'n'] ++ rest)) = "in" := by
      rw [nextWord, hword]
    have hfirst := first_word (c := 'n') (t := ['o', 't']) place rfl (List.all_eq_true.mp rfl) hf
    refine ⟨'n', ['o', 't'], .notWithin (place + (3 + gap.length)), rfl, rfl, rfl, ?_⟩
    rw [hfirst, ofWord_not, if_pos hn, hgap, hword]
    simp only [List.length_append, List.length_cons, List.length_nil]
    congr 1
  · have hp : [['i', 's'], ['n', 'o', 't']] = [v, w] := hw
    cases hp
    obtain ⟨hgap, hword⟩ := gap_word (c := 'n') (t := ['o', 't']) hg (List.all_eq_true.mp rfl) ha
    have hn : nextWord (gap ++ (['n', 'o', 't'] ++ rest)) = "not" := by
      rw [nextWord, hword]
    have hfirst := first_word (c := 'i') (t := ['s']) place rfl (List.all_eq_true.mp rfl) hf
    refine ⟨'i', ['s'], .between .notSame, rfl, rfl, rfl, ?_⟩
    rw [hfirst, ofWord_is, if_pos hn, hgap, hword]
    simp only [List.length_append, List.length_cons, List.length_nil]
    congr 1

end Pairs

theorem scanFrom_gap {gap : List Char} (place : Nat) (cs : List Char) (hg : Gap gap) :
    scanFrom place 0 (gap ++ cs) = scanFrom (place + gap.length) 0 cs := by
  induction gap generalizing place with
  | nil => rfl
  | cons c gap ih =>
    have hc := hg c List.mem_cons_self
    rw [List.cons_append, scanFrom, if_pos hc, ih _ fun d hd => hg d (List.mem_cons_of_mem c hd),
      List.length_cons]
    congr 1
    omega

private theorem scanFrom_skip (place : Nat) (cs rest : List Char) :
    scanFrom place cs.length (cs ++ rest) = scanFrom (place + cs.length) 0 rest := by
  induction cs generalizing place with
  | nil => rfl
  | cons c cs ih =>
    rw [List.length_cons, List.cons_append, scanFrom, ih]
    congr 1
    omega

theorem scanFrom_first {place : Nat} {c : Char} {t rest : List Char} {l : Lexeme}
    (hg : isGap c = false) (hf : first place c (t ++ rest) = (l, (c :: t).length)) :
    scanFrom place 0 (c :: t ++ rest) =
      (l, place) :: scanFrom (place + (c :: t).length) 0 rest := by
  rw [List.cons_append, scanFrom, hg, if_neg (by decide), hf]
  simp only [List.length_cons, Nat.add_sub_cancel]
  rw [scanFrom_skip]
  congr 2
  omega

private theorem scanFrom_pair {place : Nat} {c : Char} {t gap w rest : List Char} {l : Lexeme}
    (hg : isGap c = false)
    (hf : first place c (t ++ (gap ++ (w ++ rest))) = (l, (c :: t ++ (gap ++ w)).length)) :
    scanFrom place 0 (c :: t ++ (gap ++ (w ++ rest))) =
      (l, place) :: scanFrom (place + (c :: t ++ (gap ++ w)).length) 0 rest := by
  have ht : t ++ (gap ++ (w ++ rest)) = t ++ (gap ++ w) ++ rest := by
    simp only [List.append_assoc]
  rw [ht] at hf
  rw [List.cons_append, ht]
  exact scanFrom_first hg hf

/-- Lexemes in a layout are what the scanner finds, however wide the gaps are. -/
theorem scanFrom_layout {ls : List Lexeme} {cs : List Char} (place : Nat)
    (hs : ∀ l ∈ ls, l.Sound) (hc : ls.IsChain MayPrecede)
    (hl : Layout (ls.flatMap spelling) cs) :
    (scanFrom place 0 cs).map (fun l => l.1.shape) = ls := by
  induction ls generalizing place cs with
  | nil =>
    cases hl with
    | nil hg =>
      rw [← List.append_nil cs, scanFrom_gap place [] hg]
      rfl
  | cons l ls ih =>
    have hl₀ := hs l List.mem_cons_self
    have hrest : ∀ place rest, Layout (ls.flatMap spelling) rest →
        (scanFrom place 0 rest).map (fun l => l.1.shape) = ls := fun place rest =>
      ih place (fun l hm => hs l (List.mem_cons_of_mem _ hm)) hc.tail
    rw [List.flatMap_cons] at hl
    -- What follows decides whether the lexeme reaches further than its own text.
    rcases spelling_cases hl₀ with ⟨w, hw⟩ | hpair
    · rw [hw, List.singleton_append] at hl
      cases hl with
      | @cons gap _ back _ hgap hapart hback =>
        have hahead : l.Ahead back := by
          cases ls with
          | nil =>
            cases hback with
            | nil hg => exact ahead_gap hg
          | cons next ls =>
            exact ahead_layout (hs next (by simp)) (List.isChain_cons_cons.mp hc).1 hback
        obtain ⟨c, t, rfl, hcg, hf⟩ := found_spelled (place + gap.length) hl₀ hw hapart hahead
        rw [scanFrom_gap _ _ hgap, scanFrom_first hcg hf, List.map_cons, hrest _ _ hback,
          shape_of_sound hl₀]
    · have hw : ∃ v w, l.spelling = [v, w] := by
        rcases hpair with rfl | rfl <;> exact ⟨_, _, rfl⟩
      obtain ⟨v, w, hw⟩ := hw
      rw [hw] at hl
      cases hl with
      | @cons gap _ _ _ hgap hapart hback =>
        cases hback with
        | @cons gap' _ back _ hgap' hapart' hback =>
          obtain ⟨c, t, found, rfl, hcg, hshape, hf⟩ :=
            first_pair (place + gap.length) hl₀ hw hgap' hapart hapart'
          rw [scanFrom_gap _ _ hgap, scanFrom_pair hcg hf, List.map_cons, hrest _ _ hback, hshape]

theorem joinText_chain {ls : List (Lexeme × Nat)}
    (h : (ls.map fun l => l.1.shape).IsChain MayPrecede) : ls.foldr joinText [] = ls := by
  induction ls with
  | nil => rfl
  | cons l ls ih =>
    rw [List.foldr_cons, ih h.tail]
    cases ls with
    | nil =>
      obtain ⟨l, place⟩ := l
      unfold joinText
      split
      · next hr => cases hr
      · rfl
    | cons next ls =>
      have hm := (List.isChain_cons_cons.mp h).1
      obtain ⟨l, place⟩ := l
      obtain ⟨next, place'⟩ := next
      unfold joinText
      split
      · next heq hr =>
        cases heq
        cases hr
        exact hm.elim
      · rfl

theorem scan_layout {ls : List Lexeme} {cs : List Char} (hs : ∀ l ∈ ls, l.Sound)
    (hc : ls.IsChain MayPrecede) (hl : Layout (ls.flatMap spelling) cs) :
    (scan cs).map (fun l => l.1.shape) = ls := by
  have h := scanFrom_layout 0 hs hc hl
  rw [scan, joinText_chain (by rw [h]; exact hc), h]

end Lexeme

end Stencil
