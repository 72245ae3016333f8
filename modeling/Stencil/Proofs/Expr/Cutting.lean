import Stencil.Proofs.Expr.Lexing

/-!
# Lexemes in front of a cut

The scanner takes lexemes off the front of a text one after another. Those in front of a cut stay
what they are when the text behind it is exchanged, as long as none of them would reach for what
then follows.
-/

namespace Stencil

namespace Lexeme

/-! ### What the scanner takes -/

private theorem placesLength_le (cs : List Char) : placesLength cs ≤ cs.length := by
  unfold placesLength
  split
  · next cs =>
    have hrun := (List.takeWhile_prefix Char.isDigit (l := cs)).length_le
    simp only [List.length_cons]
    split <;> omega
  · exact Nat.zero_le _

private theorem exponentLength_le (cs : List Char) : exponentLength cs ≤ cs.length := by
  cases cs with
  | nil => exact le_rfl
  | cons e cs =>
    cases cs with
    | nil => simp [exponentLength]
    | cons s ds =>
      have hrun := (List.takeWhile_prefix Char.isDigit (l := ds)).length_le
      have hall := (List.takeWhile_prefix Char.isDigit (l := s :: ds)).length_le
      simp only [exponentLength, List.length_cons] at hall ⊢
      split_ifs <;> omega

private theorem number_length (cs : List Char) :
    (number cs).2 = (cs.takeWhile Char.isDigit).length +
    placesLength (cs.drop (cs.takeWhile Char.isDigit).length) +
    exponentLength (cs.drop ((cs.takeWhile Char.isDigit).length +
      placesLength (cs.drop (cs.takeWhile Char.isDigit).length))) := by
  simp only [number]
  split
  · split <;> rfl
  · rfl

private theorem number_length_le (cs : List Char) : (number cs).2 ≤ cs.length := by
  have hdigits := (List.takeWhile_prefix Char.isDigit (l := cs)).length_le
  have hplaces := placesLength_le (cs.drop (cs.takeWhile Char.isDigit).length)
  have hexponent := exponentLength_le (cs.drop ((cs.takeWhile Char.isDigit).length +
    placesLength (cs.drop (cs.takeWhile Char.isDigit).length)))
  rw [List.length_drop] at hplaces hexponent
  rw [number_length]
  omega

private theorem ofWord_single {w : List Char} (his : String.ofList w ≠ "is")
    (hnot : String.ofList w ≠ "not") :
    ∃ l, ∀ place after, ofWord place w after = (l, w.length) := by
  by_cases h : String.ofList w ∈ keywords
  · have hw : w = (String.ofList w).toList := String.toList_ofList.symm
    simp only [keywords, List.mem_cons, List.not_mem_nil, or_false, his, hnot, false_or] at h
    rcases h with h | h | h | h | h | h | h | h | h | h <;> rw [h] at hw <;> subst hw <;>
      exact ⟨_, fun _ _ => rfl⟩
  · exact ⟨_, fun _ _ => ofWord_name h⟩

/-- A word as a lexeme: it stands alone, or the word behind the next gap belongs to it. -/
private theorem ofWord_cases (w : List Char) :
    (∃ l, ∀ place after, ofWord place w after = (l, w.length)) ∨
    ∃ second ∈ ["not", "in"], ∃ (single : Lexeme) (pair : Nat → Lexeme), ∀ place after,
      ofWord place w after = if nextWord after = second then
        (pair (place + (w.length + (after.takeWhile isGap).length)),
          w.length + (after.takeWhile isGap).length + (word (after.dropWhile isGap)).length)
      else (single, w.length) := by
  have hw : w = (String.ofList w).toList := String.toList_ofList.symm
  by_cases his : String.ofList w = "is"
  · rw [his] at hw
    subst hw
    exact .inr ⟨"not", by decide, between .same, fun _ => between .notSame, ofWord_is⟩
  by_cases hnot : String.ofList w = "not"
  · rw [hnot] at hw
    subst hw
    exact .inr ⟨"in", by decide, not, notWithin, ofWord_not⟩
  · exact .inl (ofWord_single his hnot)

private theorem ofWord_length (place : Nat) (w after : List Char) :
    w.length ≤ (ofWord place w after).2 ∧ (ofWord place w after).2 ≤ w.length + after.length := by
  have hgap := (List.takeWhile_prefix isGap (l := after)).length_le
  have hword := (List.takeWhile_prefix inName (l := after.dropWhile isGap)).length_le
  have hparts := congrArg List.length (List.takeWhile_append_dropWhile (p := isGap) (l := after))
  rw [List.length_append] at hparts
  rcases ofWord_cases w with ⟨l, hl⟩ | ⟨second, -, single, pair, hl⟩
  · rw [hl]
    exact ⟨le_rfl, Nat.le_add_right _ _⟩
  · rw [hl, word]
    split <;> dsimp only <;> omega

private theorem sign_cases (c : Char) : (∃ l, ∀ after, sign c after = (l, 1)) ∨
    ∃ d ∈ ['*', '/', '='], ∃ single double, ∀ after,
      sign c after = if after.head? = some d then (double, 2) else (single, 1) := by
  by_cases hstar : c = '*'
  · exact .inr ⟨'*', by decide, _, _, fun _ => by subst hstar; rfl⟩
  by_cases hslash : c = '/'
  · exact .inr ⟨'/', by decide, _, _, fun _ => by subst hslash; rfl⟩
  by_cases hless : c = '<'
  · exact .inr ⟨'=', by decide, _, _, fun _ => by subst hless; rfl⟩
  by_cases hmore : c = '>'
  · exact .inr ⟨'=', by decide, _, _, fun _ => by subst hmore; rfl⟩
  by_cases hequals : c = '='
  · exact .inr ⟨'=', by decide, stray, between .eq, fun _ => by subst hequals; simp [sign]⟩
  by_cases hbang : c = '!'
  · exact .inr ⟨'=', by decide, stray, between .ne, fun _ => by subst hbang; simp [sign]⟩
  · refine .inl ⟨(sign c []).1, fun after => ?_⟩
    refine Prod.ext ?_ ?_ <;>
      simp only [sign, hstar, hslash, hless, hmore, hequals, hbang, if_false, false_and,
        apply_ite Prod.snd, ite_self]

private theorem sign_length (c : Char) (after : List Char) :
    1 ≤ (sign c after).2 ∧ (sign c after).2 ≤ after.length + 1 := by
  rcases sign_cases c with ⟨l, hl⟩ | ⟨d, -, single, double, hl⟩
  · rw [hl]
    exact ⟨le_rfl, Nat.le_add_left _ _⟩
  · rw [hl]
    cases after with
    | nil => exact ⟨le_rfl, le_rfl⟩
    | cons e after =>
      rw [List.length_cons]
      split <;> dsimp only <;> omega

/-- What is read of a quoted text does not depend on what follows. -/
private theorem takeQuoted?_split {mark : Char} {cs body rest : List Char}
    (h : Text.takeQuoted? mark cs = some (body, rest)) :
    ∃ used, cs = used ++ rest ∧
      ∀ other, Text.takeQuoted? mark (used ++ other) = some (body, other) := by
  have hplain : ∀ {c : Char} {cs : List Char}, (c = '\\' → cs = [] → False) →
      (∀ d ds, c = '\\' → cs = d :: ds → False) → c ≠ '\\' := by
    rintro c (_ | ⟨d, ds⟩) hlast hmore rfl
    · exact hlast rfl rfl
    · exact hmore d ds rfl rfl
  induction cs using Text.takeQuoted?.induct mark generalizing body with
  | case1 => cases h
  | case2 => cases h
  | case3 c cs ih =>
    rw [Text.takeQuoted?_backslash, Option.map_eq_some_iff] at h
    obtain ⟨⟨inner, after⟩, hread, heq⟩ := h
    cases heq
    obtain ⟨used, rfl, hother⟩ := ih hread
    refine ⟨'\\' :: c :: used, rfl, fun other => ?_⟩
    rw [List.cons_append, List.cons_append, Text.takeQuoted?_backslash, hother]
    rfl
  | case4 cs hlast hmore =>
    have hmark := hplain hlast hmore
    rw [Text.takeQuoted?_cons _ _ hmark, if_pos rfl] at h
    cases h
    refine ⟨[mark], rfl, fun other => ?_⟩
    rw [List.singleton_append, Text.takeQuoted?_cons _ _ hmark, if_pos rfl]
  | case5 c cs hlast hmore hc ih =>
    have hplain := hplain hlast hmore
    rw [Text.takeQuoted?_cons _ _ hplain, if_neg hc, Option.map_eq_some_iff] at h
    obtain ⟨⟨inner, after⟩, hread, heq⟩ := h
    cases heq
    obtain ⟨used, rfl, hother⟩ := ih hread
    refine ⟨c :: used, rfl, fun other => ?_⟩
    rw [List.cons_append, Text.takeQuoted?_cons _ _ hplain, if_neg hc, hother]
    rfl

private theorem first_length (place : Nat) (c : Char) (cs : List Char) :
    1 ≤ (first place c cs).2 ∧ (first place c cs).2 ≤ cs.length + 1 := by
  rw [first]
  split_ifs with hword hdigit hquote
  · have hlength := ofWord_length place (c :: word cs) (cs.drop (word cs).length)
    have hrun : (word cs).length ≤ cs.length := (List.takeWhile_prefix inName).length_le
    rw [List.length_cons, List.length_drop] at hlength
    omega
  · have hall := number_length_le (c :: cs)
    have hlength := number_length (c :: cs)
    rw [List.takeWhile_cons_of_pos hdigit, List.length_cons] at hlength
    rw [List.length_cons] at hall
    omega
  · cases hread : Text.takeQuoted? c cs with
    | none => exact ⟨le_rfl, Nat.le_add_left _ _⟩
    | some read =>
      dsimp only
      omega
  · exact sign_length c cs

/-- The lexemes with their places that the scanner takes off the front of a text, which begins at a
place and goes on with `rest`. -/
inductive Takes (rest : List Char) : Nat → List Char → List (Lexeme × Nat) → Prop where
  | nil {place : Nat} : Takes rest place [] []
  | gap {place : Nat} {c : Char} {cs : List Char} {ls : List (Lexeme × Nat)} : isGap c = true →
      Takes rest (place + 1) cs ls → Takes rest place (c :: cs) ls
  | lexeme {place : Nat} {w cs : List Char} {l : Lexeme} {ls : List (Lexeme × Nat)} :
      Found place w (cs ++ rest) l → Takes rest (place + w.length) cs ls →
      Takes rest place (w ++ cs) ((l, place) :: ls)

private theorem exists_found (place : Nat) (c : Char) (cs : List Char) :
    ∃ t back l, cs = t ++ back ∧ first place c (t ++ back) = (l, (c :: t).length) := by
  obtain ⟨hpos, hle⟩ := first_length place c cs
  refine ⟨cs.take ((first place c cs).2 - 1), cs.drop ((first place c cs).2 - 1),
    (first place c cs).1, (List.take_append_drop _ _).symm, ?_⟩
  rw [List.take_append_drop, List.length_cons, List.length_take]
  refine Prod.ext rfl ?_
  dsimp only
  omega

theorem takes_all (place : Nat) (cs : List Char) : Takes [] place cs (scanFrom place 0 cs) := by
  induction hn : cs.length using Nat.strong_induction_on generalizing place cs with
  | _ n ih =>
    cases cs with
    | nil => exact .nil
    | cons c cs =>
      rw [List.length_cons] at hn
      by_cases hgap : isGap c = true
      · rw [scanFrom, if_pos hgap]
        exact .gap hgap (ih cs.length (by omega) _ _ rfl)
      · rw [Bool.not_eq_true] at hgap
        obtain ⟨t, back, l, rfl, hfirst⟩ := exists_found place c cs
        have hscan := scanFrom_first hgap hfirst
        rw [List.cons_append] at hscan
        rw [hscan]
        rw [List.length_append] at hn
        refine Takes.lexeme (w := c :: t) ⟨c, t, rfl, hgap, ?_⟩ (ih back.length (by omega) _ _ rfl)
        rw [List.append_nil, hfirst]

/-- A lexeme that is taken parts the text into what is in front, its own and what is behind. -/
theorem Takes.split {rest cs : List Char} {place q : Nat} {l : Lexeme}
    {before behind : List (Lexeme × Nat)} (h : Takes rest place cs (before ++ (l, q) :: behind)) :
    ∃ front w back, cs = front ++ (w ++ back) ∧ Takes (w ++ (back ++ rest)) place front before ∧
      q = place + front.length ∧ Found q w (back ++ rest) l := by
  generalize hls : before ++ (l, q) :: behind = ls at h
  induction h generalizing before with
  | nil => simp at hls
  | @gap place c cs ls hgap _ ih =>
    obtain ⟨front, w, back, rfl, hfront, rfl, hfound⟩ := ih hls
    refine ⟨c :: front, w, back, rfl, .gap hgap hfront, ?_, hfound⟩
    rw [List.length_cons]
    omega
  | @lexeme place w cs l' ls hfound _ ih =>
    cases before with
    | nil =>
      cases hls
      exact ⟨[], w, cs, rfl, .nil, rfl, hfound⟩
    | cons first before =>
      cases hls
      obtain ⟨front, v, back, rfl, hfront, rfl, hback⟩ := ih rfl
      refine ⟨w ++ front, v, back, by simp only [List.append_assoc], ?_, ?_, hback⟩
      · rw [List.append_assoc, List.append_assoc] at hfound
        exact .lexeme hfound hfront
      · rw [List.length_append]
        omega

theorem Takes.scanFrom {rest cs : List Char} {place : Nat} {ls : List (Lexeme × Nat)}
    (h : Takes rest place cs ls) :
    scanFrom place 0 (cs ++ rest) = ls ++ Lexeme.scanFrom (place + cs.length) 0 rest := by
  induction h with
  | nil => rfl
  | @gap place c cs ls hgap _ ih =>
    rw [List.cons_append, Lexeme.scanFrom, if_pos hgap, ih, List.length_cons, Nat.add_right_comm,
      Nat.add_assoc]
  | @lexeme place w cs l ls hfound _ ih =>
    obtain ⟨c, t, rfl, hgap, hfirst⟩ := hfound
    rw [List.append_assoc, scanFrom_first hgap hfirst, ih, List.length_append, Nat.add_assoc]
    rfl

/-! ### What follows is exchanged -/

/-- What may stand in the place of a text: something behind a space, or with the letter that the
text begins with; and no second word of an operator, unless it was there. -/
structure Exchange (rest rest' : List Char) : Prop where
  head : rest'.head? = some ' ' ∨ rest.head? = some 'n' ∧ rest'.head? = some 'n'
  second : ∀ k ∈ ["not", "in"], nextWord rest' = k → nextWord rest = k

private theorem takeWhile_inside {p : Char → Bool} {cs rest : List Char}
    (h : ((cs ++ rest).takeWhile p).length < cs.length) (rest' : List Char) :
    (cs ++ rest').takeWhile p = (cs ++ rest).takeWhile p := by
  induction cs with
  | nil => cases h
  | cons c cs ih =>
    cases hc : p c with
    | false => simp [hc]
    | true =>
      simp only [List.cons_append, List.takeWhile_cons_of_pos hc, List.length_cons] at h ⊢
      rw [ih (by omega)]

section Exchange

variable {rest rest' : List Char} (he : Exchange rest rest')
include he

private theorem Exchange.head_ne {d : Char} (hspace : d ≠ ' ') (hn : d ≠ 'n') :
    rest'.head? ≠ some d := by
  rintro hd
  rcases he.head with h | ⟨-, h⟩ <;> rw [hd] at h <;> cases h
  · exact hspace rfl
  · exact hn rfl

private theorem Exchange.run_eq {p : Char → Bool} (hp : p ' ' = false) {cs : List Char}
    (h : ((cs ++ rest).takeWhile p).length ≤ cs.length) :
    (cs ++ rest').takeWhile p = (cs ++ rest).takeWhile p := by
  induction cs with
  | nil =>
    have hrest : rest.takeWhile p = [] := List.length_eq_zero_iff.mp (Nat.le_zero.mp h)
    rw [List.nil_append, List.nil_append, hrest]
    rcases he.head with h' | ⟨hn, h'⟩
    · cases rest' with
      | nil => rfl
      | cons d rest' =>
        cases h'
        exact List.takeWhile_cons_of_neg (by simp [hp])
    · cases rest with
      | nil => cases hn
      | cons c rest =>
        cases hn
        cases rest' with
        | nil => rfl
        | cons d rest' =>
          cases h'
          refine List.takeWhile_cons_of_neg fun hc => ?_
          rw [List.takeWhile_cons_of_pos hc] at hrest
          cases hrest
  | cons c cs ih =>
    cases hc : p c with
    | false => simp [hc]
    | true =>
      rw [List.cons_append, List.cons_append, List.takeWhile_cons_of_pos hc,
        List.takeWhile_cons_of_pos hc]
      rw [List.cons_append, List.takeWhile_cons_of_pos hc, List.length_cons, List.length_cons] at h
      rw [ih (by omega)]

private theorem Exchange.places_eq {cs : List Char} (h : placesLength (cs ++ rest) ≤ cs.length) :
    placesLength (cs ++ rest') = placesLength (cs ++ rest) := by
  cases cs with
  | nil =>
    have hrest : placesLength rest = 0 := Nat.le_zero.mp h
    rw [List.nil_append, List.nil_append, hrest]
    exact placesLength_zero (he.head_ne (by decide) (by decide))
  | cons c cs =>
    by_cases hc : c = '.'
    · subst hc
      simp only [List.cons_append, placesLength, List.length_cons] at h ⊢
      rw [he.run_eq (p := Char.isDigit) rfl]
      split at h <;> omega
    · rw [placesLength_zero (by simpa using hc), placesLength_zero (by simpa using hc)]

private theorem Exchange.exponent_eq {cs : List Char}
    (h : exponentLength (cs ++ rest) ≤ cs.length) :
    exponentLength (cs ++ rest') = exponentLength (cs ++ rest) := by
  -- Neither a space nor the letter begins an exponent or goes on with one.
  obtain ⟨d, ds, rfl, hd⟩ : ∃ d ds, rest' = d :: ds ∧ (d = ' ' ∨ d = 'n') := by
    cases rest' with
    | nil => rcases he.head with h | ⟨-, h⟩ <;> cases h
    | cons d ds =>
      refine ⟨d, ds, rfl, ?_⟩
      rcases he.head with h | ⟨-, h⟩ <;> cases h
      · exact .inl rfl
      · exact .inr rfl
  cases cs with
  | nil =>
    have hrest : exponentLength rest = 0 := Nat.le_zero.mp h
    rw [List.nil_append, List.nil_append, hrest]
    rcases hd with rfl | rfl <;> simp [exponentLength]
  | cons e cs =>
    by_cases hexp : e = 'e' ∨ e = 'E'
    · cases cs with
      | nil =>
        have hnone : exponentLength (e :: d :: ds) = 0 := by
          rcases hd with rfl | rfl <;> simp [exponentLength, Char.isDigit]
        have hfew : exponentLength (e :: rest) = 0 := by
          simp only [List.cons_append, List.nil_append, List.length_singleton] at h
          cases rest with
          | nil => simp [exponentLength]
          | cons s rest =>
            simp only [exponentLength, if_pos hexp] at h ⊢
            split_ifs at h ⊢ <;> omega
        rw [List.singleton_append, List.singleton_append, hnone, hfew]
      | cons s cs =>
        simp only [List.cons_append, exponentLength, if_pos hexp, List.length_cons] at h ⊢
        by_cases hs : s = '+' ∨ s = '-'
        · simp only [if_pos hs] at h ⊢
          rw [he.run_eq (p := Char.isDigit) rfl]
          split at h <;> omega
        · simp only [if_neg hs] at h ⊢
          rw [← List.cons_append, ← List.cons_append] at *
          have hlength : ((s :: cs ++ rest).takeWhile Char.isDigit).length ≤ (s :: cs).length := by
            rw [List.length_cons]
            split at h <;> omega
          rw [he.run_eq rfl hlength]
    · simp only [List.cons_append, exponentLength, if_neg hexp]

private theorem Exchange.number_eq {cs : List Char} (h : (number (cs ++ rest)).2 ≤ cs.length) :
    number (cs ++ rest') = number (cs ++ rest) := by
  rw [number_length] at h
  have hdigits : (cs ++ rest').takeWhile Char.isDigit = (cs ++ rest).takeWhile Char.isDigit :=
    he.run_eq rfl (by omega)
  generalize hrun : (cs ++ rest).takeWhile Char.isDigit = digits at h hdigits
  rw [List.drop_append_of_le_length (by omega)] at h
  have hplaces : placesLength (cs.drop digits.length ++ rest') =
      placesLength (cs.drop digits.length ++ rest) :=
    he.places_eq (by rw [List.length_drop]; omega)
  generalize hlength : placesLength (cs.drop digits.length ++ rest) = places at h hplaces
  rw [List.drop_append_of_le_length (by omega)] at h
  have hexponent : exponentLength (cs.drop (digits.length + places) ++ rest') =
      exponentLength (cs.drop (digits.length + places) ++ rest) :=
    he.exponent_eq (by rw [List.length_drop]; omega)
  have hdrop : ∀ {n : ℕ} (other : List Char), n ≤ cs.length →
      (cs ++ other).drop n = cs.drop n ++ other := fun _ => List.drop_append_of_le_length
  have htake : ∀ {n : ℕ} (other : List Char), n ≤ cs.length →
      (cs ++ other).take n = cs.take n := fun _ => List.take_append_of_le_length
  simp only [number, hdigits, hrun]
  rw [hdrop rest' (by omega), hdrop rest (by omega), hplaces, hlength, hdrop rest' (by omega),
    hdrop rest (by omega), hexponent, htake rest' (by omega), htake rest (by omega)]

private theorem Exchange.ofWord_eq {w cs : List Char} {place : Nat}
    (h : (ofWord place w (cs ++ rest)).2 ≤ w.length + cs.length)
    (hn : (ofWord place w (cs ++ rest)).2 = w.length →
      ∀ k ∈ ["not", "in"], nextWord (cs ++ rest') = k → nextWord (cs ++ rest) = k) :
    ofWord place w (cs ++ rest') = ofWord place w (cs ++ rest) := by
  rcases ofWord_cases w with ⟨l, hl⟩ | ⟨second, hsecond, single, pair, hl⟩
  · rw [hl, hl]
  · rw [hl] at h hn
    by_cases hnext : nextWord (cs ++ rest) = second
    · -- The second word is not empty, so that the gap ends in front of what is exchanged.
      have hword : 1 ≤ (word ((cs ++ rest).dropWhile isGap)).length := by
        rw [Nat.one_le_iff_ne_zero, Ne, List.length_eq_zero_iff]
        intro hnil
        rw [nextWord, hnil] at hnext
        subst hnext
        revert hsecond
        decide
      rw [if_pos hnext] at h
      dsimp only at h
      have hgap : (cs ++ rest').takeWhile isGap = (cs ++ rest).takeWhile isGap :=
        takeWhile_inside (by omega) rest'
      generalize hrun : (cs ++ rest).takeWhile isGap = gap at h hgap
      have hdrop := drop_gap (cs ++ rest)
      rw [hrun, List.drop_append_of_le_length (by omega)] at hdrop
      have hdrop' := drop_gap (cs ++ rest')
      rw [hgap, List.drop_append_of_le_length (by omega)] at hdrop'
      rw [← hdrop] at h
      have hsame : word (cs.drop gap.length ++ rest') = word (cs.drop gap.length ++ rest) := by
        refine he.run_eq rfl ?_
        rw [List.length_drop]
        exact Nat.le_sub_of_add_le (by rw [word] at h; omega)
      have hnext' : nextWord (cs ++ rest') = second := by
        rw [nextWord, ← hdrop', hsame, hdrop]
        exact hnext
      rw [hl, hl, if_pos hnext, if_pos hnext', hgap, hrun, ← hdrop, ← hdrop', hsame]
    · rw [if_neg hnext] at hn
      have hnext' : nextWord (cs ++ rest') ≠ second := fun h' => hnext (hn rfl second hsecond h')
      rw [hl, hl, if_neg hnext, if_neg hnext']

private theorem Exchange.sign_eq {c : Char} {cs : List Char}
    (h : (sign c (cs ++ rest)).2 ≤ cs.length + 1) :
    sign c (cs ++ rest') = sign c (cs ++ rest) := by
  rcases sign_cases c with ⟨l, hl⟩ | ⟨d, hd, single, double, hl⟩
  · rw [hl, hl]
  · have hne : ∀ d ∈ ['*', '/', '='], d ≠ ' ' ∧ d ≠ 'n' := by simp
    obtain ⟨hspace, hletter⟩ := hne d hd
    cases cs with
    | nil =>
      have hrest : rest.head? ≠ some d := by
        intro hhead
        rw [List.nil_append, hl, if_pos hhead] at h
        exact absurd h (Nat.not_succ_le_self 1)
      rw [List.nil_append, List.nil_append, hl, hl, if_neg hrest,
        if_neg (he.head_ne hspace hletter)]
    | cons e cs =>
      rw [hl, hl]
      rfl

private theorem Exchange.ofWord_word {place : Nat} {c : Char} {t cs : List Char}
    (hn : ∀ k ∈ ["not", "in"], nextWord (cs ++ rest') = k → nextWord (cs ++ rest) = k)
    (hlength : (ofWord place (c :: word (t ++ cs ++ rest))
      ((t ++ cs ++ rest).drop (word (t ++ cs ++ rest)).length)).2 = t.length + 1) :
    ofWord place (c :: word (t ++ cs ++ rest'))
        ((t ++ cs ++ rest').drop (word (t ++ cs ++ rest')).length) =
      ofWord place (c :: word (t ++ cs ++ rest))
        ((t ++ cs ++ rest).drop (word (t ++ cs ++ rest)).length) := by
  have hall := (ofWord_length place (c :: word (t ++ cs ++ rest))
    ((t ++ cs ++ rest).drop (word (t ++ cs ++ rest)).length)).1
  rw [hlength, List.length_cons, Nat.add_le_add_iff_right] at hall
  have happend : (t ++ cs).length = t.length + cs.length := List.length_append
  have hrun : word (t ++ cs ++ rest') = word (t ++ cs ++ rest) :=
    he.run_eq rfl (hall.trans (by omega))
  rw [hrun]
  generalize word (t ++ cs ++ rest) = v at hall hlength ⊢
  have hdrop : ∀ other, (t ++ cs ++ other).drop v.length = (t ++ cs).drop v.length ++ other :=
    fun other => List.drop_append_of_le_length (by omega)
  rw [hdrop] at hlength ⊢
  rw [hdrop]
  refine he.ofWord_eq ?_ fun hsame => ?_
  · rw [hlength, List.length_cons, List.length_drop]
    omega
  · rw [hlength, List.length_cons] at hsame
    have hv : v.length = t.length := by omega
    rwa [hv, List.drop_left]

/-- A lexeme is found however the text behind it is exchanged, if it is one and the second word that
it may look for is not put there. -/
private theorem Exchange.found {place : Nat} {w cs : List Char} {l : Lexeme}
    (h : Found place w (cs ++ rest) l) (hl : l ≠ stray)
    (hn : ∀ k ∈ ["not", "in"], nextWord (cs ++ rest') = k → nextWord (cs ++ rest) = k) :
    Found place w (cs ++ rest') l := by
  obtain ⟨c, t, rfl, hgap, hf⟩ := h
  refine ⟨c, t, rfl, hgap, ?_⟩
  rw [← List.append_assoc] at hf ⊢
  have hlength := congrArg Prod.snd hf
  have hstray : (first place c (t ++ cs ++ rest)).1 ≠ stray := by rw [hf]; exact hl
  rw [← hf]
  dsimp only at hlength
  rw [List.length_cons] at hlength
  -- One case each for words, numbers, quoted texts and signs.
  unfold first at hlength hstray ⊢
  split_ifs at hlength hstray ⊢ with hword hdigit hquote
  · exact he.ofWord_word hn hlength
  · have hread : (number (c :: (t ++ cs) ++ rest)).2 ≤ (c :: (t ++ cs)).length := by
      rw [List.cons_append, hlength, List.length_cons, List.length_append]
      omega
    exact he.number_eq hread
  · cases hread : Text.takeQuoted? c (t ++ cs ++ rest) with
    | none =>
      rw [hread] at hstray
      exact absurd rfl hstray
    | some read =>
      obtain ⟨body, after⟩ := read
      obtain ⟨used, hused, hother⟩ := takeQuoted?_split hread
      rw [hread] at hlength
      dsimp only at hlength
      have hsum := congrArg List.length hused
      simp only [List.length_append] at hsum hlength
      rw [List.append_assoc] at hused
      obtain ⟨rfl, rfl⟩ := List.append_inj hused (by omega)
      rw [List.append_assoc, hother]
      simp only [List.length_append]
      congr 1
      omega
  · refine he.sign_eq ?_
    rw [hlength, List.length_append]
    omega

private theorem Takes.nextWord {cs : List Char} {place : Nat} {ls : List (Lexeme × Nat)}
    (h : Takes rest place cs ls) :
    ∀ k ∈ ["not", "in"], nextWord (cs ++ rest') = k → nextWord (cs ++ rest) = k := by
  induction h with
  | nil => exact he.second
  | @gap place c cs ls hgap _ ih =>
    have hc : Gap [c] := fun d hd => List.mem_singleton.mp hd ▸ hgap
    have hskip : ∀ other, Lexeme.nextWord (c :: cs ++ other) = Lexeme.nextWord (cs ++ other) :=
      fun other => nextWord_gap (cs ++ other) hc
    intro k hk
    rw [hskip, hskip]
    exact ih k hk
  | @lexeme place w cs l ls hfound _ _ =>
    obtain ⟨c, t, rfl, hgap, hf⟩ := hfound
    intro k hk hnext
    have hkeep : ∀ other, (c :: t ++ cs ++ other).dropWhile isGap = c :: (t ++ cs ++ other) :=
      fun other => List.dropWhile_cons_of_neg (by simp [hgap])
    rw [Lexeme.nextWord, hkeep] at hnext ⊢
    by_cases hc : startsName c = true
    · -- The whole word belongs to the lexeme.
      have hall := (ofWord_length place (c :: word (t ++ cs ++ rest))
        ((t ++ cs ++ rest).drop (word (t ++ cs ++ rest)).length)).1
      rw [← List.append_assoc, first, if_pos hc] at hf
      rw [hf, List.length_cons, List.length_cons, Nat.add_le_add_iff_right] at hall
      have hrun : word (t ++ cs ++ rest') = word (t ++ cs ++ rest) :=
        he.run_eq rfl (hall.trans (by rw [List.length_append]; omega))
      have hin := startsName_inName hc
      rw [word, List.takeWhile_cons_of_pos hin] at hnext ⊢
      rw [← hnext, ← word, ← word, hrun]
    · -- The word begins with a digit, or there is none.
      exfalso
      have hk' : ∀ k ∈ ["not", "in"], ∃ d ∈ k.toList.head?, startsName d = true :=
        List.forall_mem_cons.mpr ⟨⟨'n', rfl, rfl⟩, List.forall_mem_singleton.mpr ⟨'i', rfl, rfl⟩⟩
      obtain ⟨d, hd, hstart⟩ := hk' k hk
      rw [← hnext, String.toList_ofList, word, List.head?_takeWhile, List.head?_cons,
        Option.mem_def, Option.filter_eq_some_iff] at hd
      rw [Option.some.inj hd.1] at hc
      exact hc hstart

/-- The lexemes in front of a text do not depend on what is put in its place. -/
theorem Takes.exchange {cs : List Char} {place : Nat} {ls : List (Lexeme × Nat)}
    (h : Takes rest place cs ls) (hl : ∀ l ∈ ls, l.1 ≠ stray) : Takes rest' place cs ls := by
  induction h with
  | nil => exact .nil
  | gap hgap _ ih => exact .gap hgap (ih hl)
  | lexeme hfound htakes ih =>
    obtain ⟨hfirst, hl⟩ := List.forall_mem_cons.mp hl
    exact .lexeme (he.found hfound hfirst (htakes.nextWord he)) (ih hl)

end Exchange

private def isNotWithin : Lexeme → Bool
  | notWithin _ => true
  | _ => false

private theorem sign_ne_notWithin (c : Char) (after : List Char) (second : Nat) :
    (sign c after).1 ≠ notWithin second := by
  have h : (sign c after).1.isNotWithin = false := by
    simp only [sign, apply_ite Prod.fst, apply_ite isNotWithin]
    simp only [isNotWithin, ite_self]
  intro heq
  rw [heq] at h
  cases h

private theorem ofWord_notWithin {place second length : Nat} {w after : List Char}
    (h : ofWord place w after = (notWithin second, length)) :
    String.ofList w = "not" ∧ second = place + (w.length + (after.takeWhile isGap).length) := by
  simp only [ofWord] at h
  split at h <;> (try split at h) <;> cases h
  next hw _ => exact ⟨hw, rfl⟩

/-- The two words of `not in` have a gap between them, and the place is that of the second. -/
theorem found_notWithin {place second : Nat} {w rest : List Char}
    (h : Found place w rest (notWithin second)) :
    ∃ gap after, w ++ rest = ['n', 'o', 't'] ++ (gap ++ after) ∧ Gap gap ∧
      Apart ['n', 'o', 't'] (gap ++ after) ∧ second = place + (['n', 'o', 't'] ++ gap).length := by
  obtain ⟨c, t, rfl, -, hf⟩ := h
  rw [List.cons_append]
  generalize t ++ rest = cs at hf ⊢
  unfold first at hf
  split_ifs at hf with hword hdigit hquote
  · obtain ⟨hw, rfl⟩ := ofWord_notWithin hf
    have hw : c :: word cs = ['n', 'o', 't'] := by
      rw [← String.toList_ofList (l := c :: word cs), hw]
      rfl
    obtain ⟨rfl, hrun⟩ := List.cons.inj hw
    have hparts : cs.takeWhile inName ++ cs.dropWhile inName = cs := List.takeWhile_append_dropWhile
    have hstop := List.head?_dropWhile_not inName cs
    rw [word] at hrun
    rw [hrun] at hparts
    generalize cs.dropWhile inName = after at hparts hstop
    have hgap : after.takeWhile isGap ++ after.dropWhile isGap = after :=
      List.takeWhile_append_dropWhile
    refine ⟨after.takeWhile isGap, after.dropWhile isGap, ?_, fun d => List.mem_takeWhile_imp,
      ?_, ?_⟩
    · rw [hgap, ← hparts]
      rfl
    · rw [hgap]
      rintro d - e he ⟨-, hin⟩
      rw [Option.mem_def.mp he] at hstop
      rw [hstop] at hin
      cases hin
    · have hdrop : cs.drop (word cs).length = after := by
        rw [word, hrun, ← hparts, List.drop_left]
      rw [hdrop, word, hrun, List.length_append]
  · simp only [number] at hf
    split at hf
    · split at hf <;> cases hf
    · cases hf
  · split at hf <;> cases hf
  · exact absurd (congrArg Prod.fst hf) (sign_ne_notWithin c cs second)

/-! ### Neighbouring texts -/

def isText : Lexeme → Bool
  | literal (.text _) => true
  | _ => false

private theorem joinText_texts {l m : Lexeme × Nat} (hl : l.1.isText = true)
    (hm : m.1.isText = true) :
    ∃ s, ∀ rest, joinText l (m :: rest) = (literal (.text s), l.2) :: rest := by
  have htext : ∀ l : Lexeme, l.isText = true → ∃ s, l = literal (.text s) := by
    intro l hl
    unfold isText at hl
    split at hl
    · exact ⟨_, rfl⟩
    · cases hl
  obtain ⟨l, place⟩ := l
  obtain ⟨m, place'⟩ := m
  obtain ⟨a, rfl⟩ := htext l hl
  obtain ⟨b, rfl⟩ := htext m hm
  exact ⟨a ++ b, fun _ => rfl⟩

theorem joinText_apart {l : Lexeme × Nat} {ls : List (Lexeme × Nat)}
    (h : ∀ m ∈ ls.head?, l.1.isText = true → m.1.isText = false) : joinText l ls = l :: ls := by
  unfold joinText
  split
  · next m _ _ => exact absurd (h _ rfl rfl) (by simp [isText])
  · rfl

private theorem joinText_cases (l : Lexeme × Nat) (ls : List (Lexeme × Nat)) :
    (∀ m ∈ ls.head?, l.1.isText = true → m.1.isText = false) ∨
      ∃ m rest, ls = m :: rest ∧ l.1.isText = true ∧ m.1.isText = true := by
  cases ls with
  | nil => exact .inl fun _ hm => by cases hm
  | cons m rest =>
    by_cases h : l.1.isText = true ∧ m.1.isText = true
    · exact .inr ⟨m, rest, rfl, h.1, h.2⟩
    · refine .inl fun m' hm hl => ?_
      cases hm
      exact Bool.eq_false_iff.mpr fun hm => h ⟨hl, hm⟩

private theorem joinText_append (l : Lexeme × Nat) (ls : List (Lexeme × Nat))
    {rest : List (Lexeme × Nat)} (h : ∀ m ∈ rest.head?, m.1.isText = false) :
    joinText l (ls ++ rest) = joinText l ls ++ rest := by
  cases ls with
  | nil =>
    have hnil : joinText l [] = [l] := joinText_apart fun m hm => by cases hm
    rw [List.nil_append, joinText_apart fun m hm _ => h m hm, hnil, List.singleton_append]
  | cons m ls =>
    rcases joinText_cases l (m :: ls) with hapart | ⟨m, ls, heq, hl, hm⟩
    · have hmore : joinText l (m :: (ls ++ rest)) = l :: m :: (ls ++ rest) := joinText_apart hapart
      rw [joinText_apart hapart, List.cons_append, hmore]
      rfl
    · cases heq
      obtain ⟨s, hs⟩ := joinText_texts hl hm
      rw [List.cons_append, hs, hs]
      rfl

theorem foldr_joinText_append (ls : List (Lexeme × Nat)) {rest : List (Lexeme × Nat)}
    (h : ∀ m ∈ rest.head?, m.1.isText = false) :
    ls.foldr joinText rest = ls.foldr joinText [] ++ rest := by
  induction ls with
  | nil => rfl
  | cons l ls ih => rw [List.foldr_cons, List.foldr_cons, ih, joinText_append l _ h]

/-- What is in front of a lexeme is joined from what was found in front of it. -/
theorem foldr_joinText_split {ls before behind : List (Lexeme × Nat)} {l : Lexeme} {place : Nat}
    (h : ls.foldr joinText [] = before ++ (l, place) :: behind) :
    ∃ front found back, ls = front ++ (found, place) :: back ∧ front.foldr joinText [] = before ∧
      (l.isText = false → found = l) := by
  induction ls generalizing before with
  | nil => simp at h
  | cons first ls ih =>
    rw [List.foldr_cons] at h
    rcases joinText_cases first (ls.foldr joinText []) with hapart | ⟨m, rest, heq, hl, hm⟩
    · rw [joinText_apart hapart] at h
      cases before with
      | nil =>
        obtain ⟨rfl, -⟩ := List.cons.inj h
        exact ⟨[], l, ls, rfl, rfl, fun _ => rfl⟩
      | cons b before =>
        rw [List.cons_append] at h
        obtain ⟨rfl, htail⟩ := List.cons.inj h
        obtain ⟨front, found, back, rfl, hfront, hfound⟩ := ih htail
        refine ⟨first :: front, found, back, rfl, ?_, hfound⟩
        rw [List.foldr_cons, hfront, joinText_apart fun m hm => hapart m ?_]
        rw [htail, List.head?_append, hm]
        rfl
    · obtain ⟨s, hs⟩ := joinText_texts hl hm
      rw [heq, hs] at h
      cases before with
      | nil =>
        obtain ⟨hfirst, -⟩ := List.cons.inj h
        cases hfirst
        exact ⟨[], first.1, ls, rfl, rfl, fun htext => by cases htext⟩
      | cons b before =>
        rw [List.cons_append] at h
        obtain ⟨rfl, htail⟩ := List.cons.inj h
        rw [htail] at heq
        obtain ⟨front, found, back, rfl, hfront, hfound⟩ := ih (heq.trans List.cons_append.symm)
        exact ⟨first :: front, found, back, rfl, by rw [List.foldr_cons, hfront, hs], hfound⟩

theorem mem_foldr_joinText {ls : List (Lexeme × Nat)} {l : Lexeme × Nat} (h : l ∈ ls)
    (hl : l.1.isText = false) : l ∈ ls.foldr joinText [] := by
  induction ls with
  | nil => cases h
  | cons first ls ih =>
    rw [List.foldr_cons]
    rcases joinText_cases first (ls.foldr joinText []) with hapart | ⟨m, rest, heq, hfirst, hm⟩
    · rw [joinText_apart hapart]
      exact (List.mem_cons.mp h).elim (· ▸ List.mem_cons_self) fun h => .tail _ (ih h)
    · have hne : ∀ m : Lexeme × Nat, m.1.isText = true → l ≠ m := by
        rintro m hm rfl
        rw [hl] at hm
        cases hm
      have hrest := ih ((List.mem_cons.mp h).resolve_left (hne first hfirst))
      obtain ⟨s, hs⟩ := joinText_texts hfirst hm
      rw [heq] at hrest
      rw [heq, hs]
      exact .tail _ ((List.mem_cons.mp hrest).resolve_left (hne m hm))

end Lexeme

end Stencil
