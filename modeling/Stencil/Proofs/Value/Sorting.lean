import Stencil.Proofs.Value.Order
import Stencil.Value.Builtin

/-!
# Sorted values and extremes

Items without real numbers are sorted just if every two of them have an order, also those that the
sort never compares, and the least and the greatest are found where the sorted ones have them.
-/

namespace Stencil

namespace Value

def ties (a b : Value) : Bool :=
  match a.order b with
  | .ok .eq => true
  | _ => false

private theorem ties_iff {a b : Value} : a.ties b = true ↔ a.order b = .ok .eq := by
  unfold ties
  split <;> simp_all

/-- Items in ascending order, those that compare equal as they stood before. -/
structure Arranged (items out : List Value) : Prop where
  perm : out.Perm items
  ascending : out.Pairwise AtMost
  stable : ∀ w : Value, w.RealFree → out.filter w.ties = items.filter w.ties

section Sorting

variable {item : Value} {items seen done out : List Value}

/-- An item goes below the greater ones, above the first that is not greater. -/
private theorem insertItem_eq_ok (h : insertItem item done = .ok out) : ∃ above below,
    done = above ++ below ∧ out = above ++ item :: below ∧
      (∀ top ∈ above, item.order top = .ok .lt) ∧
      ∀ top ∈ below.head?, ∃ o, item.order top = .ok o ∧ o ≠ .lt := by
  induction done generalizing out with
  | nil =>
    cases h
    exact ⟨[], [], rfl, rfl, by simp, by simp⟩
  | cons top rest ih =>
    unfold insertItem at h
    split at h
    · next htop =>
      cases hrest : insertItem item rest with
      | error e =>
        rw [hrest] at h
        cases h
      | ok out =>
        rw [hrest] at h
        cases h
        obtain ⟨above, below, rfl, rfl, habove, hbelow⟩ := ih hrest
        exact ⟨top :: above, below, rfl, rfl, List.forall_mem_cons.mpr ⟨htop, habove⟩, hbelow⟩
    · next o hne htop =>
      cases h
      refine ⟨[], top :: rest, rfl, rfl, by simp, ?_⟩
      rintro _ ⟨⟩
      exact ⟨o, htop, hne⟩
    · cases h

private theorem insertItem_succeeds (h : ∀ top ∈ done, item.Comparable top) :
    ∃ out, insertItem item done = .ok out := by
  induction done with
  | nil => exact ⟨_, rfl⟩
  | cons top rest ih =>
    obtain ⟨⟨o, htop⟩, hrest⟩ := List.forall_mem_cons.mp h
    obtain ⟨out, hout⟩ := ih hrest
    unfold insertItem
    rw [htop]
    cases o with
    | lt => exact ⟨top :: out, by rw [hout]; rfl⟩
    | eq => exact ⟨_, rfl⟩
    | gt => exact ⟨_, rfl⟩

private theorem atMost_of_top {below : List Value} (hitem : item.RealFree)
    (hbelow : ∀ v ∈ below, v.RealFree)
    (hsorted : below.reverse.Pairwise AtMost) (htop : ∀ top ∈ below.head?, top.AtMost item) :
    ∀ v ∈ below, v.AtMost item := by
  cases below with
  | nil => exact fun v hv => (List.not_mem_nil hv).elim
  | cons top rest =>
    obtain ⟨hfreeTop, hfreeRest⟩ := List.forall_mem_cons.mp hbelow
    have hlast : top.AtMost item := htop top rfl
    rw [List.pairwise_reverse, List.pairwise_cons] at hsorted
    refine List.forall_mem_cons.mpr ⟨hlast, fun v hv => ?_⟩
    exact (hsorted.1 v hv).trans (hfreeRest v hv) hfreeTop hitem hlast

private theorem Arranged.insert (hseen : ∀ v ∈ seen, v.RealFree) (hitem : item.RealFree)
    (hdone : Arranged seen done.reverse) (h : insertItem item done = .ok out) :
    Arranged (seen ++ [item]) out.reverse := by
  obtain ⟨above, below, rfl, rfl, habove, hbelow⟩ := insertItem_eq_ok h
  obtain ⟨hperm, hascending, hstable⟩ := hdone
  have hfree : ∀ v ∈ above ++ below, v.RealFree :=
    fun v hv => hseen v (hperm.subset (List.mem_reverse.mpr hv))
  obtain ⟨hfreeAbove, hfreeBelow⟩ := List.forall_mem_append.mp hfree
  have hout : (above ++ item :: below).reverse = below.reverse ++ item :: above.reverse := by simp
  rw [List.reverse_append] at hperm hascending hstable
  rw [hout]
  obtain ⟨hbelowSorted, haboveSorted, hacross⟩ := List.pairwise_append.mp hascending
  have hunder : ∀ v ∈ below, v.AtMost item := by
    refine atMost_of_top hitem hfreeBelow hbelowSorted fun top htop => ?_
    obtain ⟨o, ho, hne⟩ := hbelow top htop
    exact atMost_of_order_ne_lt hitem (hfreeBelow top (List.mem_of_mem_head? htop)) ho hne
  refine ⟨?_, ?_, fun w hw => ?_⟩
  · have hmiddle : (below.reverse ++ item :: above.reverse).Perm (item :: seen) :=
      List.perm_middle.trans (hperm.cons item)
    exact hmiddle.trans (List.perm_append_singleton item seen).symm
  · refine List.pairwise_append.mpr ⟨hbelowSorted, List.pairwise_cons.mpr ⟨?_, haboveSorted⟩, ?_⟩
    · exact fun v hv => .inl (habove v (List.mem_reverse.mp hv))
    · intro v hv u hu
      rcases List.mem_cons.mp hu with rfl | hu
      · exact hunder v (List.mem_reverse.mp hv)
      · exact hacross v hv u hu
  · -- What is above the item does not compare equal to anything that the item compares equal to.
    have hapart : w.ties item = true → above.reverse.filter w.ties = [] := by
      intro htie
      refine List.filter_eq_nil_iff.mpr fun v hv hboth => ?_
      have hmem := List.mem_reverse.mp hv
      have hless := order_trans hw hitem (hfreeAbove v hmem) (ties_iff.mp htie) (habove v hmem)
        (.inr (.inl rfl))
      cases (ties_iff.mp hboth).symm.trans hless
    have hbefore := hstable w hw
    rw [List.filter_append] at hbefore
    rw [List.filter_append, List.filter_append, List.filter_cons, ← hbefore]
    by_cases htie : w.ties item = true
    · simp [htie, hapart htie]
    · simp [htie]

private theorem Arranged.insertAll (hseen : ∀ v ∈ seen ++ items, v.RealFree)
    (hdone : Arranged seen done.reverse)
    (h : items.foldlM (fun done item => insertItem item done) done = .ok out) :
    Arranged (seen ++ items) out.reverse := by
  induction items generalizing seen done with
  | nil =>
    cases h
    rwa [List.append_nil]
  | cons item items ih =>
    rw [List.foldlM_cons] at h
    cases hitem : insertItem item done with
    | error e =>
      rw [hitem] at h
      cases h
    | ok next =>
      rw [hitem] at h
      rw [List.append_cons] at hseen ⊢
      obtain ⟨hbefore, -⟩ := List.forall_mem_append.mp hseen
      obtain ⟨hfree, hfreeItem⟩ := List.forall_mem_append.mp hbefore
      exact ih hseen (hdone.insert hfree (hfreeItem item (List.mem_singleton_self item)) hitem) h

private theorem insertAll_succeeds (hseen : ∀ v ∈ seen ++ items, v.RealFree)
    (hdone : Arranged seen done.reverse) (hpairs : (seen ++ items).Pairwise Comparable) :
    ∃ out, items.foldlM (fun done item => insertItem item done) done = .ok out := by
  induction items generalizing seen done with
  | nil => exact ⟨done, rfl⟩
  | cons item items ih =>
    rw [List.append_cons] at hseen hpairs
    obtain ⟨hbefore, -⟩ := List.forall_mem_append.mp hseen
    obtain ⟨hfree, hfreeItem⟩ := List.forall_mem_append.mp hbefore
    have hfreeItem := hfreeItem item (List.mem_singleton_self item)
    have hitems := (List.pairwise_append.mp (List.pairwise_append.mp hpairs).1).2.2
    have hcomparable : ∀ top ∈ done, item.Comparable top := by
      intro top htop
      have hmem := hdone.perm.subset (List.mem_reverse.mpr htop)
      exact (hitems top hmem item (List.mem_singleton_self item)).symm (hfree top hmem) hfreeItem
    obtain ⟨next, hnext⟩ := insertItem_succeeds hcomparable
    rw [List.foldlM_cons, hnext]
    exact ih hseen (hdone.insert hfree hfreeItem hnext) hpairs

private theorem arranged_nil : Arranged [] ([] : List Value).reverse :=
  ⟨.refl [], .nil, fun _ _ => rfl⟩

private theorem sortItems_eq_ok (hitems : ∀ v ∈ items, v.RealFree) (h : sortItems items = .ok out) :
    Arranged items out := by
  unfold sortItems at h
  cases hfold : items.foldlM (fun done item => insertItem item done) [] with
  | error e =>
    rw [hfold] at h
    cases h
  | ok done =>
    rw [hfold] at h
    cases h
    exact arranged_nil.insertAll hitems hfold

/-- Sorted items have an order, every two of them, since those next to each other have one. -/
private theorem sortItems_succeeds_iff (hitems : ∀ v ∈ items, v.RealFree) :
    (∃ out, sortItems items = .ok out) ↔ items.Pairwise Comparable := by
  constructor
  · rintro ⟨out, hout⟩
    have harranged := sortItems_eq_ok hitems hout
    let Joined := fun a b : Value => a.RealFree → b.RealFree → a.Comparable b
    have hsymm : ∀ {a b}, Joined a b → Joined b a := fun h hb ha => (h ha hb).symm ha hb
    have hjoined : out.Pairwise Joined := harranged.ascending.imp fun h _ _ => h.comparable
    rw [harranged.perm.pairwise_iff hsymm] at hjoined
    exact hjoined.imp_of_mem fun ha hb h => h (hitems _ ha) (hitems _ hb)
  · intro hpairs
    obtain ⟨done, hdone⟩ := insertAll_succeeds hitems arranged_nil hpairs
    exact ⟨done.reverse, by rw [sortItems, hdone]; rfl⟩

end Sorting

section Noting

/-- Puts an item into sorted items. A comparison that fails counts as equality, and the first fault
is noted. -/
def insertNoting (item : Value) : List Value → Option EvalError → List Value × Option EvalError
  | [], noted => ([item], noted)
  | top :: rest, noted =>
    match item.order top with
    | .ok .lt => (insertNoting item rest noted).map (top :: ·) id
    | .ok _ => (item :: top :: rest, noted)
    | .error e => (item :: top :: rest, noted.or (some e))

/-- What is left of items in the end: the fault that was noted, if any. -/
def reported : List Value × Option EvalError → Except EvalError (List Value)
  | (done, Option.none) => .ok done
  | (_, some e) => .error e

private theorem insertNoting_noted (item : Value) (done : List Value) (e : EvalError) :
    ∃ out, insertNoting item done (some e) = (out, some e) := by
  induction done with
  | nil => exact ⟨_, rfl⟩
  | cons top rest ih =>
    unfold insertNoting
    split
    · obtain ⟨out, hout⟩ := ih
      exact ⟨top :: out, by rw [hout]; rfl⟩
    · exact ⟨_, rfl⟩
    · exact ⟨_, rfl⟩

private theorem foldl_noted (items done : List Value) (e : EvalError) :
    reported (items.foldl (fun found item => insertNoting item found.1 found.2) (done, some e)) =
      .error e := by
  induction items generalizing done with
  | nil => rfl
  | cons item items ih =>
    obtain ⟨out, hout⟩ := insertNoting_noted item done e
    rw [List.foldl_cons, hout]
    exact ih out

private theorem reported_insertNoting (item : Value) (done : List Value) :
    reported (insertNoting item done Option.none) = insertItem item done := by
  induction done with
  | nil => rfl
  | cons top rest ih =>
    unfold insertItem insertNoting
    cases item.order top with
    | error e => rfl
    | ok o =>
      cases o with
      | lt =>
        rw [← ih]
        obtain ⟨out, noted⟩ := insertNoting item rest Option.none
        cases noted <;> rfl
      | eq => rfl
      | gt => rfl

private theorem foldl_insertNoting (items done : List Value) :
    reported (items.foldl (fun found item => insertNoting item found.1 found.2)
      (done, Option.none)) = items.foldlM (fun done item => insertItem item done) done := by
  induction items generalizing done with
  | nil => rfl
  | cons item items ih =>
    rw [List.foldl_cons, List.foldlM_cons, ← reported_insertNoting]
    obtain ⟨next, noted⟩ := insertNoting item done Option.none
    cases noted with
    | none => exact ih next
    | some e => exact foldl_noted items next e

/-- A sort that notes the first fault and goes on leaves what one that stops there does. -/
theorem sortItems_eq_reported (items : List Value) :
    sortItems items = (reported (items.foldl (fun found item => insertNoting item found.1 found.2)
      ([], Option.none))).map List.reverse := by
  rw [sortItems, foldl_insertNoting]

end Noting

section Extremes

variable {first best : Value} {items : List Value} {wanted : Ordering}

/-- The earliest of the items that no other beats in the wanted direction. -/
def Extreme (wanted : Ordering) (items : List Value) (best : Value) : Prop :=
  ∃ before after, items = before ++ best :: after ∧
    (∀ v ∈ before, best.order v = .ok wanted) ∧
    ∀ v ∈ after, best.order v = .ok wanted ∨ best.order v = .ok .eq

private theorem Extreme.mem (h : Extreme wanted items best) : best ∈ items := by
  obtain ⟨before, after, rfl, -⟩ := h
  simp

private theorem Extreme.cons_beaten {item : Value}
    (hfree : ∀ v ∈ first :: item :: items, v.RealFree)
    (hbeats : item.order first = .ok wanted) (h : Extreme wanted (item :: items) best) :
    Extreme wanted (first :: item :: items) best := by
  obtain ⟨hfirst, hrest⟩ := List.forall_mem_cons.mp hfree
  have hbest := hrest best h.mem
  obtain ⟨before, after, hitems, hbefore, hafter⟩ := h
  have hsplit : first :: item :: items = (first :: before) ++ best :: after := by
    rw [hitems]
    rfl
  refine ⟨first :: before, after, hsplit, List.forall_mem_cons.mpr ⟨?_, hbefore⟩, hafter⟩
  cases before with
  | nil =>
    obtain ⟨rfl, -⟩ := List.cons.inj hitems
    exact hbeats
  | cons _ before =>
    obtain ⟨rfl, -⟩ := List.cons.inj hitems
    have hitem := hbefore item List.mem_cons_self
    have hfreeItem := hrest item List.mem_cons_self
    have hthrough := order_trans hbest hfreeItem hfirst hitem hbeats (.inl rfl)
    rwa [Ordering.then_self] at hthrough

private theorem Extreme.insert_second {item : Value}
    (hfree : ∀ v ∈ first :: item :: items, v.RealFree)
    (hstays : first.order item = .ok wanted ∨ first.order item = .ok .eq)
    (h : Extreme wanted (first :: items) best) : Extreme wanted (first :: item :: items) best := by
  obtain ⟨hfirst, hrest⟩ := List.forall_mem_cons.mp hfree
  obtain ⟨hitem, hitemsFree⟩ := List.forall_mem_cons.mp hrest
  have hbest : best.RealFree := by
    rcases List.mem_cons.mp h.mem with rfl | hmem
    · exact hfirst
    · exact hitemsFree best hmem
  obtain ⟨before, after, hitems, hbefore, hafter⟩ := h
  cases before with
  | nil =>
    obtain ⟨rfl, rfl⟩ := List.cons.inj hitems
    exact ⟨[], item :: items, rfl, hbefore, List.forall_mem_cons.mpr ⟨hstays, hafter⟩⟩
  | cons _ before =>
    obtain ⟨rfl, rfl⟩ := List.cons.inj hitems
    obtain ⟨hbeats, hbefore⟩ := List.forall_mem_cons.mp hbefore
    have hthrough : best.order item = .ok wanted := by
      rcases hstays with hstays | hstays
      · have h := order_trans hbest hfirst hitem hbeats hstays (.inl rfl)
        rwa [Ordering.then_self] at h
      · have h := order_trans hbest hfirst hitem hbeats hstays (.inr (.inr rfl))
        rwa [Ordering.then_eq] at h
    refine ⟨first :: item :: before, after, rfl, ?_, hafter⟩
    exact List.forall_mem_cons.mpr ⟨hbeats, List.forall_mem_cons.mpr ⟨hthrough, hbefore⟩⟩

private theorem eq_or_of_swap_ne {o : Ordering} (h : o.swap ≠ wanted) (hwanted : wanted ≠ .eq) :
    o = wanted ∨ o = .eq := by
  cases o <;> cases wanted <;> simp_all

private theorem extreme_succeeds (hfree : ∀ v ∈ first :: items, v.RealFree)
    (hpairs : (first :: items).Pairwise Comparable) (hwanted : wanted ≠ .eq) :
    ∃ best, extreme wanted first items = .ok best ∧ Extreme wanted (first :: items) best := by
  induction items generalizing first with
  | nil => exact ⟨first, rfl, [], [], rfl, by simp, by simp⟩
  | cons item rest ih =>
    obtain ⟨hfirst, hrest⟩ := List.forall_mem_cons.mp hfree
    obtain ⟨hitem, hrestFree⟩ := List.forall_mem_cons.mp hrest
    obtain ⟨hfirstPairs, hrestPairs⟩ := List.pairwise_cons.mp hpairs
    obtain ⟨o, ho⟩ := hfirstPairs item List.mem_cons_self
    have hback := order_swap hfirst hitem ho
    rw [extreme, hback]
    by_cases hbeats : o.swap = wanted
    · obtain ⟨best, hbest, hextreme⟩ := ih hrest hrestPairs
      rw [hbeats] at hback
      exact ⟨best, by simpa [hbeats] using hbest, hextreme.cons_beaten hfree hback⟩
    · have hstays : first.order item = .ok wanted ∨ first.order item = .ok .eq := by
        have hcases : o = wanted ∨ o = .eq := eq_or_of_swap_ne hbeats hwanted
        rcases hcases with rfl | rfl
        · exact .inl ho
        · exact .inr ho
      have hpairs' : (first :: rest).Pairwise Comparable := by
        refine List.pairwise_cons.mpr ⟨?_, (List.pairwise_cons.mp hrestPairs).2⟩
        exact fun v hv => hfirstPairs v (List.mem_cons_of_mem _ hv)
      obtain ⟨best, hbest, hextreme⟩ := ih (List.forall_mem_cons.mpr ⟨hfirst, hrestFree⟩) hpairs'
      exact ⟨best, by simpa [hbeats] using hbest, hextreme.insert_second hfree hstays⟩

private theorem Arranged.least {out : List Value} (hfree : ∀ v ∈ items, v.RealFree)
    (h : Arranged items out) (hbest : Extreme .lt items best) :
    ∃ rest, out = best :: rest := by
  have hmem := h.perm.symm.subset hbest.mem
  have hfreeBest := hfree best hbest.mem
  obtain ⟨before, after, hitems, hbefore, hafter⟩ := hbest
  cases out with
  | nil => cases hmem
  | cons first rest =>
    have hfirst : first ∈ items := h.perm.subset List.mem_cons_self
    have hfreeFirst := hfree first hfirst
    rcases List.mem_cons.mp hmem with rfl | hbehind
    · exact ⟨rest, rfl⟩
    have hatMost : first.AtMost best := (List.pairwise_cons.mp h.ascending).1 best hbehind
    have hnotLess : best.order first ≠ .ok .lt := by
      intro hless
      have hback := order_swap hfreeBest hfreeFirst hless
      rcases hatMost with hle | hle <;> cases hback.symm.trans hle
    -- The first of the sorted items compares equal to the best, so they stand as they stood before,
    -- and before the best there is nothing that compares equal to it.
    have htie : best.order first = .ok .eq := by
      rw [hitems] at hfirst
      rcases List.mem_append.mp hfirst with hm | hm
      · exact absurd (hbefore first hm) hnotLess
      · rcases List.mem_cons.mp hm with rfl | hm
        · rcases hatMost with hle | hle
          · exact absurd hle hnotLess
          · exact hle
        · exact (hafter first hm).resolve_left hnotLess
    have hback := order_swap hfreeBest hfreeFirst htie
    have hself : best.order best = .ok .eq :=
      order_trans hfreeBest hfreeFirst hfreeBest htie hback (.inl rfl)
    have hnone : before.filter best.ties = [] := by
      refine List.filter_eq_nil_iff.mpr fun v hv hboth => ?_
      cases (ties_iff.mp hboth).symm.trans (hbefore v hv)
    have hsame := h.stable best hfreeBest
    rw [hitems, List.filter_append, hnone, List.filter_cons, List.filter_cons, ties_iff.mpr htie,
      ties_iff.mpr hself] at hsame
    obtain ⟨rfl, -⟩ := List.cons.inj hsame
    exact ⟨rest, rfl⟩

end Extremes

private theorem pairwise_comparable_iff {items : List Value} (hfree : ∀ v ∈ items, v.RealFree) :
    items.Pairwise Comparable ↔ ∀ i j (hi : i < items.length) (hj : j < items.length), i ≠ j →
      items[i].Comparable items[j] := by
  rw [List.pairwise_iff_getElem]
  constructor
  · intro h i j hi hj hne
    rcases Nat.lt_or_gt_of_ne hne with hlt | hlt
    · exact h i j hi hj hlt
    · have hfreeAt := fun k (hk : k < items.length) => hfree items[k] (List.getElem_mem hk)
      exact (h j i hj hi hlt).symm (hfreeAt j hj) (hfreeAt i hi)
  · exact fun h i j hi hj hlt => h i j hi hj (Nat.ne_of_lt hlt)

section Calls

variable {v : Value} {items : List Value}

private theorem call_sorted (h : v.iterate = .ok items) :
    Builtin.sorted.call [v] = (sortItems items).map .list := by
  have hcall : Builtin.sorted.call [v] = v.iterate >>= fun items =>
      sortItems items >>= fun out => .ok (.list out) := rfl
  rw [hcall, h]
  change (sortItems items >>= fun out => Except.ok (list out)) = _
  cases sortItems items <;> rfl

private theorem best_single {first : Value} {rest : List Value}
    (h : v.iterate = .ok (first :: rest))
    (name : String) (wanted : Ordering) : best name wanted [v] = extreme wanted first rest := by
  rw [best, candidates, h]
  rfl

/-- A value whose items have no real numbers in them is sorted just if every two of its items have
an order. They are then in ascending order, those that compare equal as they stood, the least of
them is the first, and the greatest the earliest that no other is greater than. -/
theorem sorted_extremes (h : v.iterate = .ok items) (hfree : ∀ item ∈ items, item.RealFree) :
    ((∃ r, Builtin.sorted.call [v] = .ok r) ↔
      ∀ i j (hi : i < items.length) (hj : j < items.length), i ≠ j →
        items[i].Comparable items[j]) ∧
    ∀ r, Builtin.sorted.call [v] = .ok r → ∃ out, r = .list out ∧ Arranged items out ∧
      (items ≠ [] → (∃ first rest, out = first :: rest ∧ Builtin.min.call [v] = .ok first) ∧
        ∃ greatest, Builtin.max.call [v] = .ok greatest ∧ Extreme .gt items greatest) := by
  rw [call_sorted h, ← pairwise_comparable_iff hfree, ← sortItems_succeeds_iff hfree]
  cases hsort : sortItems items with
  | error e => simp [Except.map]
  | ok out =>
    refine ⟨by simp [Except.map], ?_⟩
    rintro _ ⟨⟩
    have harranged := sortItems_eq_ok hfree hsort
    refine ⟨out, rfl, harranged, fun hne => ?_⟩
    have hpairs := (sortItems_succeeds_iff hfree).mp ⟨out, hsort⟩
    cases items with
    | nil => exact absurd rfl hne
    | cons first rest =>
      obtain ⟨least, hleast, hextreme⟩ :=
        extreme_succeeds hfree hpairs (show Ordering.lt ≠ .eq by simp)
      obtain ⟨greatest, hgreatest, hextreme'⟩ :=
        extreme_succeeds hfree hpairs (show Ordering.gt ≠ .eq by simp)
      obtain ⟨others, rfl⟩ := harranged.least hfree hextreme
      exact ⟨⟨least, others, rfl, (best_single h _ _).trans hleast⟩, greatest,
        (best_single h _ _).trans hgreatest, hextreme'⟩

/-- An integer and a truth value that compare equal stay as they stood. -/
theorem sorted_extremes_truths :
    let items : List Value := [.int 1, .bool true, .int 0, .bool false]
    let out : List Value := [.int 0, .bool false, .int 1, .bool true]
    ((list items).iterate = .ok items ∧ ∀ item ∈ items, item.RealFree) ∧
      Builtin.sorted.call [.list items] = .ok (.list out) ∧ Arranged items out ∧
      Builtin.min.call [.list items] = .ok (.int 0) ∧
      Builtin.max.call [.list items] = .ok (.int 1) := by
  intro items out
  have hiterate : (list items).iterate = .ok items := rfl
  have hfree : ∀ item ∈ items, item.RealFree := by
    simp only [items, List.forall_mem_cons]
    exact ⟨.int 1, .bool true, .int 0, .bool false, fun _ hm => (List.not_mem_nil hm).elim⟩
  have hsorted : Builtin.sorted.call [.list items] = .ok (.list out) := by rfl
  obtain ⟨-, h⟩ := sorted_extremes hiterate hfree
  obtain ⟨_, ⟨⟩, harranged, hextremes⟩ := h _ hsorted
  obtain ⟨⟨first, rest, hout, hmin⟩, -⟩ := hextremes (by simp [items])
  obtain ⟨rfl, -⟩ := List.cons.inj hout
  exact ⟨⟨hiterate, hfree⟩, hsorted, harranged, hmin, by rfl⟩

end Calls

end Value

end Stencil
