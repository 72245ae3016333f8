import Stencil.Expr.Eval
import Stencil.Proofs.Expr.Cutting
import Stencil.Proofs.Expr.Reading
import Stencil.Proofs.Number.Numeral

/-!
# Integers as text

The text of an integer, the integer of a text and the integers written in expressions agree, to both
ends of their range.
-/

namespace Stencil

open Number (Denotes Signed)

namespace Lexeme

variable {run rest : List Char} {n : Nat}

private theorem EndsDigits.gap {gap : List Char} (h : Gap gap) : EndsDigits gap := by
  have hgap : ∀ d ∈ gap.head?, isGap d = true := fun d hd => h d (List.mem_of_head? hd)
  refine .of_head (fun d hd => ?_) fun hd => absurd (hgap '.' hd) (by decide)
  cases hin : inName d with
  | false => rfl
  | true => rw [← hgap d hd, inName_not_gap hin]

private theorem numeral_of_lt (h : Denotes run n) (hn : Int64.maxValue.toInt < n) :
    numeral run = oversized (String.ofList run) := by
  rw [numeral, h.readInteger?_large hn]

private theorem isText_numeral (run : List Char) : (numeral run).isText = false := by
  unfold numeral
  split <;> rfl

/-- The scanner comes to digits at a place, which are not part of another lexeme. -/
def ComesTo (cs run : List Char) (place : Nat) : Prop :=
  ∃ front rest before, cs = front ++ (run ++ rest) ∧ Takes (run ++ rest) 0 front before ∧
    place = front.length ∧ EndsDigits rest

private theorem ComesTo.mem_scan {cs : List Char} {place : Nat} (h : ComesTo cs run place)
    (hrun : Denotes run n) : (numeral run, place) ∈ scan cs := by
  obtain ⟨front, rest, before, rfl, htakes, rfl, hrest⟩ := h
  obtain ⟨c, t, rfl, hgap, hfirst⟩ := found_numeral (0 + front.length) hrun hrest
  refine mem_foldr_joinText ?_ (isText_numeral _)
  rw [htakes.scanFrom, scanFrom_first hgap hfirst, Nat.zero_add]
  exact List.mem_append_right _ List.mem_cons_self

private def isInteger : Lexeme → Bool
  | literal (.int _) => true
  | _ => false

private theorem sign_not_integer (c : Char) (after : List Char) :
    (sign c after).1.isInteger = false := by
  simp only [sign, apply_ite Prod.fst, apply_ite isInteger]
  simp only [isInteger, ite_self]

private theorem ofWord_not_integer (place : Nat) (w after : List Char) :
    (ofWord place w after).1.isInteger = false := by
  simp only [ofWord]
  split <;> (try split) <;> rfl

private theorem number_eq_int {cs : List Char} {i : Int64} {length : Nat}
    (h : number cs = (literal (.int i), length)) :
    ∃ digits rest, cs = digits ++ rest ∧ digits.length = length ∧
      (∀ d ∈ digits, d.isDigit = true) ∧ Number.readInteger? digits = some i ∧
      EndsDigits rest := by
  have hcs : cs.takeWhile Char.isDigit ++ cs.dropWhile Char.isDigit = cs :=
    List.takeWhile_append_dropWhile
  have hstop : ∀ d ∈ (cs.dropWhile Char.isDigit).head?, d.isDigit = false := by
    intro d hd
    have hhead := List.head?_dropWhile_not Char.isDigit cs
    rw [Option.mem_def.mp hd] at hhead
    exact hhead
  have hdigits : ∀ d ∈ cs.takeWhile Char.isDigit, d.isDigit = true :=
    fun d hd => List.mem_takeWhile_imp hd
  unfold number at h
  generalize cs.takeWhile Char.isDigit = digits at hcs h hdigits
  generalize cs.dropWhile Char.isDigit = rest at hcs hstop
  subst hcs
  simp only [List.drop_left] at h
  split at h
  · next hzero =>
    obtain ⟨hplaces, hexponent⟩ := Nat.add_eq_zero_iff.mp hzero
    rw [hplaces, Nat.add_zero, List.drop_left] at hexponent
    split at h
    · next hread =>
      cases h
      exact ⟨digits, rest, rfl, by omega, hdigits, hread, hstop, hplaces, hexponent⟩
    · cases h
  · cases h

private theorem found_int {place : Nat} {w rest : List Char} {i : Int64}
    (h : Found place w rest (literal (.int i))) :
    (∃ n : Nat, Denotes w n ∧ i.toInt = n) ∧ EndsDigits rest := by
  obtain ⟨c, t, rfl, -, hf⟩ := h
  have hinteger : (first place c (t ++ rest)).1.isInteger = true := by rw [hf]; rfl
  unfold first at hf hinteger
  split_ifs at hf hinteger with hword hdigit hquote
  · rw [ofWord_not_integer] at hinteger
    cases hinteger
  · -- The digits are all of the lexeme, since it is no longer than they are.
    obtain ⟨digits, after, hsplit, hlength, hdigits, hread, hends⟩ := number_eq_int hf
    rw [← List.cons_append] at hsplit
    obtain ⟨rfl, rfl⟩ := List.append_inj hsplit hlength.symm
    have hdenotes := Number.denotes_ofDigitChars (List.cons_ne_nil c t) hdigits
    rw [hdenotes.readInteger?] at hread
    exact ⟨⟨_, hdenotes, Number.toInt_of_fit? hread⟩, hends⟩
  · split at hinteger <;> cases hinteger
  · rw [sign_not_integer] at hinteger
    cases hinteger

private theorem mem_scan_int {cs : List Char} {place : Nat} {i : Int64} :
    (literal (.int i), place) ∈ scan cs ↔
      ∃ (run : List Char) (n : Nat), ComesTo cs run place ∧ Denotes run n ∧ i.toInt = n := by
  constructor
  · intro h
    obtain ⟨before, behind, hscan⟩ := List.append_of_mem h
    obtain ⟨front, found, back, hall, -, hfound⟩ := foldr_joinText_split hscan
    cases hfound rfl
    have htakes := takes_all 0 cs
    rw [hall] at htakes
    obtain ⟨text, run, rest, rfl, hfront, rfl, hrun⟩ := htakes.split
    rw [List.append_nil] at hfront hrun
    obtain ⟨⟨n, hdenotes, hi⟩, hends⟩ := found_int hrun
    exact ⟨run, n, ⟨text, rest, front, rfl, hfront, Nat.zero_add _, hends⟩, hdenotes, hi⟩
  · rintro ⟨run, n, hcomes, hrun, hi⟩
    rw [← numeral_of_eq hrun hi]
    exact hcomes.mem_scan hrun

private theorem scan_numeral {gap gap' : List Char} (h : Denotes run n) (hgap : Gap gap)
    (hgap' : Gap gap') :
    scan (gap ++ (run ++ gap')) = [(numeral run, gap.length)] := by
  obtain ⟨c, t, rfl, hc, hfirst⟩ := found_numeral (0 + gap.length) h (.gap hgap')
  have hend := fun place => scanFrom_gap place [] hgap'
  simp only [List.append_nil] at hend
  rw [scan, scanFrom_gap 0 _ hgap, scanFrom_first hc hfirst, hend, Nat.zero_add]
  exact joinText_apart fun m hm => by cases hm

end Lexeme

namespace Expr

open Lexeme (ComesTo EndsDigits)

private theorem oversized?_ne_none {ls : List (Lexeme × Nat)} {digits : String} {place : Nat}
    (h : (.oversized digits, place) ∈ ls) : oversized? ls ≠ none := by
  intro hnone
  have hnone := List.findSome?_eq_none_iff.mp hnone _ h
  cases hnone

private theorem parse_oversized {text digits : String} {place : Nat}
    (h : (.oversized digits, place) ∈ Lexeme.scan text.toList) :
    ∃ fault, parse text = .error fault := by
  have hsome := oversized?_ne_none h
  unfold parse
  dsimp only
  split
  · exact ⟨_, rfl⟩
  · split
    · exact ⟨_, rfl⟩
    · exact absurd ‹_› hsome

private theorem parse_numeral {run gap gap' : List Char} {n : Nat} (h : Denotes run n)
    (hgap : Gap gap) (hgap' : Gap gap') :
    parse (String.ofList (gap ++ (run ++ gap'))) =
      match Number.readInteger? run with
      | some i => .ok (.literal (.int i))
      | none => .error (.oversizedInteger (String.ofList run)) := by
  rw [parse, String.toList_ofList, Lexeme.scan_numeral h hgap hgap', Lexeme.numeral]
  cases Number.readInteger? run <;> rfl

private theorem eval_call_builtin {env : Environment} {name : String} {f : Builtin} {e : Expr}
    {v : Value} (hf : env.resolve name = .ok (.function (.builtin f))) (he : e.eval env = .ok v) :
    (call (.name name) [e]).eval env = f.call [v] := by
  simp only [eval, evalItems, he, hf]
  rfl

private theorem call_str (i : Int64) :
    Builtin.str.call [.int i] = .ok (.text (String.ofList (Number.integerText i))) :=
  rfl

private theorem call_int_text {s : String} {v : Value} : Builtin.int.call [.text s] = .ok v ↔
    ∃ i, Number.readInteger? (Text.trim s.toList) = some i ∧ v = .int i := by
  have hcall : Builtin.int.call [.text s] = Value.toInt (.text s) := rfl
  rw [hcall, Value.toInt]
  cases Number.readInteger? (Text.trim s.toList) with
  | none => simp
  | some i => simp [eq_comm]

private theorem eval_int_str {env : Environment} {x a b : Expr} {i : Int64} {p q : String}
    (hint : env.resolve "int" = .ok (.function (.builtin .int)))
    (hstr : env.resolve "str" = .ok (.function (.builtin .str)))
    (hx : x.eval env = .ok (.int i)) (ha : a.eval env = .ok (.text p))
    (hb : b.eval env = .ok (.text q)) (hp : Text.Blanks p.toList) (hq : Text.Blanks q.toList) :
    (call (.name "int") [.binary .add (.binary .add a (call (.name "str") [x])) b]).eval env =
      .ok (.int i) := by
  have hsum : (binary .add (.binary .add a (call (.name "str") [x])) b).eval env =
      .ok (.text (p ++ String.ofList (Number.integerText i) ++ q)) := by
    simp only [eval, evalItems, hx, ha, hb, hstr]
    rfl
  rw [eval_call_builtin hint hsum, call_int_text]
  refine ⟨i, Number.readInteger?_trim.mpr ⟨p.toList, Number.integerText i, q.toList, ?_, hp, hq,
    Number.signed_integerText i⟩, rfl⟩
  rw [String.toList_append, String.toList_append, String.toList_ofList, List.append_assoc]

/-- An integer comes back from its text with blanks around it. A text is read as an integer just if
it is digits after at most one sign, with blanks around them, that denote it. The text of an integer
that is not negative is an expression for it. An integer is found in an expression just where digits
that denote it stand, and digits beyond the integers are nowhere in an expression. -/
theorem integer_text_agrees :
    (∀ {env : Environment} {x a b : Expr} {i : Int64} {p q : String},
      env.resolve "int" = .ok (.function (.builtin .int)) →
      env.resolve "str" = .ok (.function (.builtin .str)) →
      x.eval env = .ok (.int i) → a.eval env = .ok (.text p) → b.eval env = .ok (.text q) →
      Text.Blanks p.toList → Text.Blanks q.toList →
      (call (.name "int") [.binary .add (.binary .add a (call (.name "str") [x])) b]).eval env =
        .ok (.int i)) ∧
    (∀ (s : String) (v : Value), Builtin.int.call [.text s] = .ok v ↔
      ∃ p t q, ∃ i : Int64, s.toList = p ++ (t ++ q) ∧ Text.Blanks p ∧ Text.Blanks q ∧
        Signed t i.toInt ∧ v = .int i) ∧
    (∀ {i : Int64} {gap gap' : List Char}, 0 ≤ i.toInt → Gap gap → Gap gap' →
      ∃ s, Builtin.str.call [.int i] = .ok (.text s) ∧
        parse (String.ofList (gap ++ (s.toList ++ gap'))) = .ok (.literal (.int i))) ∧
    (∀ {text : String} {place : Nat} {i : Int64},
      (.literal (.int i), place) ∈ Lexeme.scan text.toList ↔ ∃ (run : List Char) (n : Nat),
        ComesTo text.toList run place ∧ Denotes run n ∧ i.toInt = n) ∧
    (∀ {text : String} {run : List Char} {place n : Nat}, ComesTo text.toList run place →
      Denotes run n → Int64.maxValue.toInt < n → ∃ fault, parse text = .error fault) ∧
    ∀ {run gap gap' : List Char} {n : Nat}, Denotes run n → Int64.maxValue.toInt < n →
      Gap gap → Gap gap' → parse (String.ofList (gap ++ (run ++ gap'))) =
        .error (.oversizedInteger (String.ofList run)) := by
  refine ⟨eval_int_str, fun s v => ?_, ?_, Lexeme.mem_scan_int, ?_, ?_⟩
  · rw [call_int_text]
    constructor
    · rintro ⟨i, hread, hv⟩
      obtain ⟨p, t, q, hs, hp, hq, ht⟩ := Number.readInteger?_trim.mp hread
      exact ⟨p, t, q, i, hs, hp, hq, ht, hv⟩
    · rintro ⟨p, t, q, i, hs, hp, hq, ht, hv⟩
      exact ⟨i, Number.readInteger?_trim.mpr ⟨p, t, q, hs, hp, hq, ht⟩, hv⟩
  · intro i gap gap' hi hgap hgap'
    have hdenotes := Number.denotes_integerText hi
    have hread : Number.readInteger? (Number.integerText i) = some i := by
      rw [hdenotes.readInteger?, Int.natAbs_of_nonneg hi, Number.fit?_toInt]
    refine ⟨_, call_str i, ?_⟩
    rw [String.toList_ofList, parse_numeral hdenotes hgap hgap', hread]
  · intro text run place n hcomes hrun hn
    have hscan := hcomes.mem_scan hrun
    rw [Lexeme.numeral_of_lt hrun hn] at hscan
    exact parse_oversized hscan
  · intro run gap gap' n hrun hn hgap hgap'
    rw [parse_numeral hrun hgap hgap', hrun.readInteger?_large hn]

/-- The limits of the integers. The least one has a text, but it is no expression: its digits alone
are beyond the greatest. -/
theorem integer_text_agrees_limits :
    let env : Environment := ⟨fun _ => none, fun _ _ => .error .overflow⟩
    let least : Expr := .literal (.int Int64.minValue)
    let padded : Expr := .binary .add
      (.binary .add (.literal (.text " ")) (call (.name "str") [least])) (.literal (.text "\n"))
    (call (.name "int") [padded]).eval env = .ok (.int Int64.minValue) ∧
      Builtin.int.call [.text " +007\t"] = .ok (.int 7) ∧
      (∃ s, Builtin.str.call [.int Int64.maxValue] = .ok (.text s) ∧
        parse (String.ofList ([' '] ++ (s.toList ++ []))) = .ok (.literal (.int Int64.maxValue))) ∧
      (∃ fault, parse "-9223372036854775808" = .error fault) ∧
      parse (String.ofList ([] ++ ("9223372036854775808".toList ++ []))) =
        .error (.oversizedInteger (String.ofList "9223372036854775808".toList)) := by
  intro env least padded
  obtain ⟨hback, hread, hliteral, -, hbeyond, halone⟩ := integer_text_agrees
  have hseven : Denotes "007".toList 7 := Number.denotes_iff.mpr rfl
  have hdigits : Denotes "9223372036854775808".toList 9223372036854775808 :=
    Number.denotes_iff.mpr rfl
  have hlarge : Int64.maxValue.toInt < (9223372036854775808 : Nat) := by decide
  have hcomes : ComesTo "-9223372036854775808".toList "9223372036854775808".toList 1 :=
    ⟨['-'], [], [(.minus, 0)], rfl, .lexeme (w := ['-']) ⟨'-', [], rfl, rfl, rfl⟩ .nil, rfl,
      .gap gap_nil⟩
  refine ⟨hback rfl rfl rfl rfl rfl ?_ ?_, ?_, hliteral (by decide) gap_space gap_nil,
    hbeyond hcomes hdigits hlarge, halone hdigits hlarge gap_nil gap_nil⟩
  · exact List.forall_mem_singleton.mpr rfl
  · exact List.forall_mem_singleton.mpr rfl
  · exact (hread _ _).mpr ⟨[' '], "+007".toList, ['\t'], 7, rfl, List.forall_mem_singleton.mpr rfl,
      List.forall_mem_singleton.mpr rfl, .plus hseven, rfl⟩

end Expr

end Stencil
