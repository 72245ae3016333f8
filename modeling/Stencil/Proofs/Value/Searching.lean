import Stencil.Proofs.Value.Arithmetic
import Stencil.Proofs.Value.Slices
import Stencil.Proofs.Value.Splitting

/-!
# Searching

Methods that search agree with membership and with comparisons of slices and items: they find a text
where a slice is equal to it, and a value where an item is.
-/

namespace Stencil.Value

def sliceIs (s t : String) (lower upper : Option Value) : Except EvalError Value := do
  binary .eq (← (text s).slice lower upper) (text t)

def standsAt (s t : String) (i : Int64) : Except EvalError Value := do
  let length ← Builtin.len.call [text t]
  sliceIs s t (some (int i)) (some (← binary .add (int i) length))

def standsFirst (s t : String) : Except EvalError Value := do
  sliceIs s t Option.none (some (← Builtin.len.call [text t]))

/-- Whether the slice of a text from the negated length of another text on is equal to it. -/
def standsLast (s t : String) : Except EvalError Value := do
  let length ← Builtin.len.call [text t]
  sliceIs s t (some (← unary .negate length)) Option.none

def itemIs (items : List Value) (v : Value) (i : Int64) : Except EvalError Value := do
  binary .eq (← (list items).index (int i)) v

/-- The least place for which a test comes out true. -/
structure LeastPlace (test : Int64 → Except EvalError Value) (place : Int64) : Prop where
  nonneg : 0 ≤ place.toInt
  holds : test place = .ok (bool true)
  least : ∀ j : Int64, 0 ≤ j.toInt → j.toInt < place.toInt → test j = .ok (bool false)

def Answers (r : Except EvalError Value) (p : Prop) : Prop :=
  ∃ b, r = .ok (bool b) ∧ (b = true ↔ p)

section Truth

variable {r r' : Except EvalError Value} {p q : Prop}

private theorem Answers.congr (h : Answers r p) (hpq : p ↔ q) : Answers r q := by
  obtain ⟨b, hr, hb⟩ := h
  exact ⟨b, hr, hb.trans hpq⟩

theorem Answers.holds (h : Answers r p) (hp : p) : r = .ok (bool true) := by
  obtain ⟨b, hr, hb⟩ := h
  rw [hr, hb.mpr hp]

private theorem Answers.fails (h : Answers r p) (hp : ¬ p) : r = .ok (bool false) := by
  obtain ⟨b, hr, hb⟩ := h
  rw [hr, Bool.eq_false_iff.mpr (mt hb.mp hp)]

private theorem Answers.alike (h : Answers r p) (h' : Answers r' p) :
    ∃ b, r = .ok (bool b) ∧ r' = .ok (bool b) := by
  obtain ⟨b, hr, hb⟩ := h
  obtain ⟨b', hr', hb'⟩ := h'
  have hsame : b = b' := Bool.eq_iff_iff.mpr (hb.trans hb'.symm)
  exact ⟨b, hr, by rw [hr', hsame]⟩

end Truth

private theorem len_text (t : String) : ∃ n : Int64,
    Builtin.len.call [text t] = .ok (int n) ∧
      n.toInt = min (t.toList.length : Int) addressable := by
  have hcall : Builtin.len.call [text t] = .ok (ofNat t.toList.length) := rfl
  obtain ⟨n, hn, hlength⟩ := ofNat_min t.toList.length
  exact ⟨n, by rw [hcall, hn], hlength⟩

private theorem fitted_of_fits {n : Int} (h : Number.Fits n) :
    ∃ i : Int64, fitted (Number.fit? n) = .ok (int i) ∧ i.toInt = n := by
  cases hi : Number.fit? n with
  | none => exact absurd h (Number.fit?_eq_none.mp hi)
  | some i => exact ⟨i, rfl, Number.toInt_of_fit? hi⟩

section Texts

variable {s : String} {t : String}

private theorem sliceIs_answers {lower upper : Option Value} {a b : Int}
    (ha : Cuts s.toList.length 0 lower a) (hb : Cuts s.toList.length s.toList.length upper b) :
    Answers (sliceIs s t lower upper) (t.toList = (s.toList.take b.toNat).drop a.toNat) := by
  refine ⟨String.ofList ((s.toList.take b.toNat).drop a.toNat) == t, ?_, ?_⟩
  · rw [sliceIs, slice_text ha hb]
    rfl
  · rw [beq_iff_eq, ← String.toList_inj, String.toList_ofList, eq_comm]

private theorem startswith_answers (s t : String) :
    Answers ((text s).method "startswith" [text t]) (t.toList <+: s.toList) :=
  ⟨_, rfl, List.isPrefixOf_iff_prefix⟩

private theorem endswith_answers (s t : String) :
    Answers ((text s).method "endswith" [text t]) (t.toList <:+ s.toList) :=
  ⟨_, rfl, List.isSuffixOf_iff_suffix⟩

private theorem method_find (s t : String) : (text s).method "find" [text t] =
    (Text.find? t.toList s.toList).elim (.ok (int (-1))) fun place => .ok (ofNat place) := by
  have harity : arity "find" [text t] 1 1 = .ok () := rfl
  have htext : expectText "find" (text t) = .ok t := rfl
  simp only [method, textMethod, harity, htext, List.headD_cons, bind, Except.bind]
  cases Text.find? t.toList s.toList <;> rfl

private theorem find_missing (h : ¬ t.toList <:+: s.toList) :
    (text s).method "find" [text t] = .ok (int (-1)) := by
  rw [method_find, Text.find?_eq_none.mpr h, Option.elim_none]

variable (hs : s.toList.length ≤ addressable)
include hs

private theorem standsAt_answers {i : Int64} (hlow : 0 ≤ i.toInt)
    (hhigh : i.toInt + t.toList.length ≤ s.toList.length) :
    Answers (standsAt s t i) (t.toList <+: s.toList.drop i.toInt.toNat) := by
  obtain ⟨n, hlen, hlength⟩ := len_text t
  rw [addressable] at hs hlength
  have hfits : Number.Fits (i.toInt + n.toInt) := Number.fits_iff.mpr (by omega)
  obtain ⟨stop, hsum, hstop⟩ := fitted_of_fits hfits
  have hadd : binary .add (int i) (int n) = .ok (int stop) := hsum
  have hcall : standsAt s t i = sliceIs s t (some (int i)) (some (int stop)) := by
    rw [standsAt, hlen]
    change (binary .add (int i) (int n) >>= _) = _
    rw [hadd]
    rfl
  have hlower : (cut s.toList.length i).toNat = i.toInt.toNat := by
    rw [cut, if_neg (by omega)]
    omega
  have hupper : (cut s.toList.length stop).toNat = i.toInt.toNat + t.toList.length := by
    rw [cut, if_neg (by omega)]
    omega
  rw [hcall, List.prefix_iff_eq_take, List.take_drop, ← hupper, ← hlower]
  exact sliceIs_answers (.index i) (.index stop)

private theorem standsFirst_answers : Answers (standsFirst s t) (t.toList <+: s.toList) := by
  obtain ⟨n, hlen, hlength⟩ := len_text t
  rw [addressable] at hs hlength
  have hcall : standsFirst s t = sliceIs s t Option.none (some (int n)) := by
    rw [standsFirst, hlen]
    rfl
  have hupper : (cut s.toList.length n).toNat = min t.toList.length s.toList.length := by
    rw [cut, if_neg (by omega)]
    omega
  rw [hcall, List.prefix_iff_eq_take, List.take_eq_take_min, ← hupper]
  exact sliceIs_answers .omitted (.index n)

/-- From the negated length of the empty text on, the slice is the whole text. -/
private theorem standsLast_answers :
    Answers (standsLast s t) (t.toList <:+ s.toList ∧ (t = "" → s = "")) := by
  obtain ⟨n, hlen, hlength⟩ := len_text t
  rw [addressable] at hs hlength
  have hfits : Number.Fits (-n.toInt) := Number.fits_iff.mpr (by omega)
  obtain ⟨start, hminus, hstart⟩ := fitted_of_fits hfits
  have hnegate : unary .negate (int n) = .ok (int start) := hminus
  have hcall : standsLast s t = sliceIs s t (some (int start)) Option.none := by
    rw [standsLast, hlen]
    change (unary .negate (int n) >>= _) = _
    rw [hnegate]
    rfl
  have hslice := sliceIs_answers (s := s) (t := t) (.index start) .omitted
  rw [Int.toNat_natCast, List.take_length] at hslice
  rw [hcall]
  refine hslice.congr ?_
  by_cases ht : t = ""
  · have hlower : (cut s.toList.length start).toNat = 0 := by
      have hempty : t.toList.length = 0 := by simp [ht]
      rw [cut, if_neg (by omega)]
      omega
    rw [hlower, List.drop_zero, String.toList_inj, ht]
    simp [eq_comm]
  · have hlower : (cut s.toList.length start).toNat = s.toList.length - t.toList.length := by
      have hlong : t.toList.length ≠ 0 := by simpa using ht
      rw [cut, if_pos (by omega)]
      omega
    rw [hlower, ← List.suffix_iff_eq_drop]
    simp [ht]

private theorem find_least (h : t.toList <:+: s.toList) :
    ∃ place : Int64, (text s).method "find" [text t] = .ok (int place) ∧
      LeastPlace (standsAt s t) place := by
  cases hfind : Text.find? t.toList s.toList with
  | none => exact absurd h (Text.find?_eq_none.mp hfind)
  | some k =>
    obtain ⟨hstands, hleast⟩ := Text.find?_eq_some.mp hfind
    have hk := Text.find?_le hfind
    obtain ⟨place, hplace, hnat⟩ := ofNat_exact (n := k) (by omega)
    refine ⟨place, by rw [method_find, hfind, Option.elim_some, hplace], by omega, ?_, ?_⟩
    · refine (standsAt_answers hs (by omega) (by omega)).holds ?_
      rwa [hnat, Int.toNat_natCast]
    · intro j hlow hless
      exact (standsAt_answers hs hlow (by omega)).fails (hleast _ (by omega))

end Texts

section Lists

variable {items : List Value} {v : Value}

private theorem contains_list (items : List Value) (v : Value) :
    contains (list items) v = .ok (items.any fun item => item.equal v) := rfl

private theorem method_listCount (items : List Value) (v : Value) :
    (list items).method "count" [v] = .ok (ofNat (items.countP fun item => item.equal v)) := rfl

private theorem method_index (items : List Value) (v : Value) : (list items).method "index" [v] =
    (items.findIdx? fun item => item.equal v).elim
      (.error (.value (v.repr ++ " is not in list"))) fun place => .ok (ofNat place) := by
  have harity : arity "index" [v] 1 1 = .ok () := rfl
  simp only [method, listMethod, harity, List.headD_cons, bind, Except.bind]
  cases items.findIdx? fun item => item.equal v <;> rfl

private theorem index_found {r : Value} (h : (list items).method "index" [v] = .ok r) :
    ∃ item ∈ items, item.equal v = true := by
  rw [method_index] at h
  cases hfind : items.findIdx? fun item => item.equal v with
  | none =>
    rw [hfind] at h
    cases h
  | some k =>
    obtain ⟨hk, hequal, -⟩ := List.findIdx?_eq_some_iff_getElem.mp hfind
    exact ⟨_, List.getElem_mem hk, hequal⟩

private theorem itemIs_eq {i : Int64} {n : Nat} (hn : n < items.length) (hi : i.toInt = n) :
    itemIs items v i = .ok (bool (items[n].equal v)) := by
  rw [itemIs, index_getElem (s := list items) rfl hn (.inl hi)]
  rfl

private theorem index_least (hitems : items.length ≤ addressable)
    (h : ∃ item ∈ items, item.equal v = true) :
    ∃ place : Int64, (list items).method "index" [v] = .ok (int place) ∧
      LeastPlace (itemIs items v) place := by
  cases hfind : items.findIdx? fun item => item.equal v with
  | none =>
    obtain ⟨item, hitem, hequal⟩ := h
    have hother := List.findIdx?_eq_none_iff.mp hfind item hitem
    exact absurd (hequal.symm.trans hother) Bool.noConfusion
  | some k =>
    obtain ⟨hk, hequal, hleast⟩ := List.findIdx?_eq_some_iff_getElem.mp hfind
    obtain ⟨place, hplace, hnat⟩ := ofNat_exact (n := k) (by omega)
    refine ⟨place, by rw [method_index, hfind, Option.elim_some, hplace], by omega, ?_, ?_⟩
    · rw [itemIs_eq hk hnat, hequal]
    · intro j hlow hless
      have hj : j.toInt.toNat < k := by omega
      rw [itemIs_eq (hj.trans hk) (by omega), Bool.eq_false_iff.mpr (hleast _ hj)]

end Lists

private theorem ofNat_pos_iff (n : Nat) : ∃ i : Int64, ofNat n = int i ∧ (0 < i.toInt ↔ 0 < n) := by
  obtain ⟨i, hi, hleast⟩ := ofNat_min n
  rw [addressable] at hleast
  exact ⟨i, hi, by omega⟩

/-- In a text that memory holds, another is found just if it is in it, and then at the least place
where a slice is equal to it, it is counted just if it is in it, and it stands at either end just if
the slice there is equal to it or, at the back, if it is empty. In a list that memory holds, a value
is found and counted just if it is in it, and it is found at the least place with an item equal to
it. -/
theorem searching_agrees {s : String} {items : List Value} (hs : s.toList.length ≤ addressable)
    (hitems : items.length ≤ addressable) (t : String) (v : Value) :
    (∃ found, contains (text s) (text t) = .ok found ∧
      (found = true ↔ t.toList <:+: s.toList) ∧
      (∃ place, (text s).method "find" [text t] = .ok (int place) ∧
        (place = -1 ↔ found = false) ∧ (found = true → LeastPlace (standsAt s t) place)) ∧
      ∃ n : Int64, (text s).method "count" [text t] = .ok (int n) ∧ (0 < n.toInt ↔ found = true)) ∧
    (∃ begins, (text s).method "startswith" [text t] = .ok (bool begins) ∧
      standsFirst s t = .ok (bool begins)) ∧
    (∃ ends same, (text s).method "endswith" [text t] = .ok (bool ends) ∧
      standsLast s t = .ok (bool same) ∧ (ends = true ↔ t = "" ∨ same = true)) ∧
    ∃ found, contains (list items) v = .ok found ∧
      (found = true ↔ ∃ item ∈ items, item.equal v = true) ∧
      (∃ n : Int64, (list items).method "count" [v] = .ok (int n) ∧
        (0 < n.toInt ↔ found = true)) ∧
      ((∃ r, (list items).method "index" [v] = .ok r) ↔ found = true) ∧
      ∀ r, (list items).method "index" [v] = .ok r →
        ∃ place, r = .int place ∧ LeastPlace (itemIs items v) place := by
  refine ⟨⟨_, contains_text s t, Text.occurs_iff, ?_, ?_⟩,
    (startswith_answers s t).alike (standsFirst_answers hs), ?_, _, contains_list items v,
    List.any_eq_true, ?_, ?_, ?_⟩
  · by_cases h : t.toList <:+: s.toList
    · obtain ⟨place, hfind, hleast⟩ := find_least hs h
      have hplace : place ≠ -1 := fun he => absurd hleast.nonneg (by rw [he]; decide)
      exact ⟨place, hfind, by simp [hplace, Text.occurs_iff.mpr h], fun _ => hleast⟩
    · have hmissing : Text.occurs t.toList s.toList = false :=
        Bool.eq_false_iff.mpr (mt Text.occurs_iff.mp h)
      exact ⟨-1, find_missing h, by simp [hmissing], by simp [hmissing]⟩
  · obtain ⟨n, hn, hpos⟩ := ofNat_pos_iff (Text.countOf t.toList s.toList)
    exact ⟨n, by rw [method_count, hn], by rw [hpos, Text.countOf_pos_iff, Text.occurs_iff]⟩
  · obtain ⟨ends, hends, hsuffix⟩ := endswith_answers s t
    obtain ⟨same, hsame, hslice⟩ := standsLast_answers (t := t) hs
    refine ⟨ends, same, hends, hsame, ?_⟩
    rw [hsuffix, hslice]
    by_cases ht : t = "" <;> simp [ht]
  · obtain ⟨n, hn, hpos⟩ := ofNat_pos_iff (items.countP fun item => item.equal v)
    exact ⟨n, by rw [method_listCount, hn], by rw [hpos, List.countP_pos_iff, List.any_eq_true]⟩
  · rw [List.any_eq_true]
    constructor
    · rintro ⟨r, hr⟩
      exact index_found hr
    · intro h
      obtain ⟨place, hplace, -⟩ := index_least hitems h
      exact ⟨_, hplace⟩
  · intro r hr
    obtain ⟨place, hplace, hleast⟩ := index_least hitems (index_found hr)
    exact ⟨place, Except.ok.inj (hr.symm.trans hplace), hleast⟩

/-- A character of several bytes is one place, and one is equal to a truth value. -/
theorem searching_agrees_bytes :
    let s : String := "ñaab"
    let items : List Value := [.int 2, .int 1, .bool true]
    (s.toList.length ≤ addressable ∧ items.length ≤ addressable) ∧
      (text s).method "find" [.text "ab"] = .ok (.int 2) ∧
      standsAt s "ab" 2 = .ok (.bool true) ∧ standsAt s "ab" 1 = .ok (.bool false) ∧
      (list items).method "index" [.bool true] = .ok (.int 1) ∧
      itemIs items (.bool true) 1 = .ok (.bool true) := by
  intro s items
  have hs : s.toList.length ≤ addressable := by decide
  have hitems : items.length ≤ addressable := by decide
  have hfind : (text "ñaab").method "find" [.text "ab"] = .ok (ofNat 2) := by rfl
  have hindex : (list items).method "index" [.bool true] = .ok (ofNat 1) := by rfl
  obtain ⟨⟨found, -, -, ⟨place, hplace, hmissing, hstands⟩, -⟩, -, -, _, -, -, -, -, hitem⟩ :=
    searching_agrees hs hitems "ab" (.bool true)
  have htwo : Value.int place = .int 2 := Except.ok.inj (hplace.symm.trans hfind)
  obtain rfl := Value.int.inj htwo
  have hfound : found = true := by
    rw [← Bool.not_eq_false, ← hmissing]
    decide
  obtain ⟨place, hone, hleast⟩ := hitem _ hindex
  have hplace' : Value.int 1 = .int place := hone
  obtain rfl := Value.int.inj hplace'
  exact ⟨⟨hs, hitems⟩, hfind, (hstands hfound).holds,
    (hstands hfound).least 1 (by decide) (by decide), hindex, hleast.holds⟩

end Stencil.Value
