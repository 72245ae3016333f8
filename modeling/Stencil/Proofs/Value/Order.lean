import Stencil.Value.Order

/-!
# The order of values without real numbers

It is a partial order: two values have an order either way round or none, and values that a third
one stands between have one.
-/

namespace Stencil

namespace Value

inductive RealFree : Value → Prop where
  | none : RealFree .none
  | bool (b : Bool) : RealFree (.bool b)
  | int (i : Int64) : RealFree (.int i)
  | text (s : String) : RealFree (.text s)
  | list {items : List Value} : (∀ v ∈ items, RealFree v) → RealFree (.list items)
  | map {entries : List (String × Value)} : (∀ entry ∈ entries, RealFree entry.2) →
      RealFree (.map entries)
  | template (t : Template) : RealFree (.template t)
  | function (f : Function) : RealFree (.function f)

def Comparable (a b : Value) : Prop :=
  ∃ o, a.order b = .ok o

/-- Two values have an order, and the first does not come behind the second. -/
def AtMost (a b : Value) : Prop :=
  a.order b = .ok .lt ∨ a.order b = .ok .eq

def Concordant (o p : Ordering) : Prop :=
  o = p ∨ o = .eq ∨ p = .eq

/-- The order of two values without real numbers, by what they are. -/
inductive Ordered : Value → Value → Ordering → Prop where
  | numbers {a b : Value} {i j : Int64} : a.number? = some (.int i) → b.number? = some (.int j) →
      Ordered a b (compare i.toInt j.toInt)
  | texts (s t : String) : Ordered (.text s) (.text t) (compare s t)
  | lists {as bs : List Value} {o : Ordering} : orderItems as bs = .ok o →
      Ordered (.list as) (.list bs) o

theorem RealFree.number {v : Value} (h : v.RealFree) {n : Number} (hn : v.number? = some n) :
    ∃ i, n = .int i := by
  cases h with
  | bool b => exact ⟨_, (Option.some.inj hn).symm⟩
  | int i => exact ⟨_, (Option.some.inj hn).symm⟩
  | _ => cases hn

private theorem RealFree.items {items : List Value} (h : RealFree (.list items)) :
    ∀ v ∈ items, v.RealFree := by
  cases h with
  | list hitems => exact hitems

private theorem compare_then {α : Type} [Ord α] [Std.TransOrd α] {a b c : α}
    (h : Concordant (compare a b) (compare b c)) :
    compare a c = (compare a b).then (compare b c) := by
  rcases hab : compare a b with _ | _ | _
  · rcases hbc : compare b c with _ | _ | _
    · exact Std.TransCmp.lt_trans hab hbc
    · exact Std.TransCmp.lt_of_lt_of_eq hab hbc
    · rw [hab, hbc] at h
      simp [Concordant] at h
  · rw [Std.TransCmp.congr_left hab]
    rfl
  · rcases hbc : compare b c with _ | _ | _
    · rw [hab, hbc] at h
      simp [Concordant] at h
    · rw [← Std.TransCmp.congr_right hbc, hab]
      rfl
    · exact Std.TransCmp.gt_trans hab hbc

section Items

variable {a b : Value} {as bs cs : List Value} {o p : Ordering}

theorem orderItems_cons : orderItems (a :: as) (b :: bs) = .ok o ↔
    (a.order b = .ok o ∧ o ≠ .eq) ∨ (a.order b = .ok .eq ∧ orderItems as bs = .ok o) := by
  rw [orderItems]
  cases a.order b with
  | error e => simp
  | ok first => cases first <;> cases o <;> simp

private theorem orderItems_swap
    (hswap : ∀ v ∈ as, ∀ w ∈ bs, ∀ {o}, v.order w = .ok o → w.order v = .ok o.swap)
    (h : orderItems as bs = .ok o) : orderItems bs as = .ok o.swap := by
  induction as generalizing bs with
  | nil =>
    cases bs with
    | nil =>
      cases h
      rfl
    | cons w bs =>
      cases h
      rfl
  | cons v as ih =>
    cases bs with
    | nil =>
      cases h
      rfl
    | cons w bs =>
      have hfirst := @hswap v List.mem_cons_self w List.mem_cons_self
      rw [orderItems_cons] at h ⊢
      rcases h with ⟨hvw, hne⟩ | ⟨hvw, hrest⟩
      · have hne : o.swap ≠ .eq := by simpa using hne
        exact .inl ⟨hfirst hvw, hne⟩
      · refine .inr ⟨hfirst hvw, ih (fun v hv w hw => ?_) hrest⟩
        exact hswap v (List.mem_cons_of_mem _ hv) w (List.mem_cons_of_mem _ hw)

private theorem then_of_ne (h : o ≠ .eq) : o.then p = o := by
  cases o with
  | eq => exact absurd rfl h
  | _ => rfl

private theorem orderItems_trans
    (htrans : ∀ u ∈ as, ∀ v ∈ bs, ∀ w ∈ cs, ∀ {o p}, u.order v = .ok o → v.order w = .ok p →
      Concordant o p → u.order w = .ok (o.then p))
    (h : orderItems as bs = .ok o) (h' : orderItems bs cs = .ok p) (hop : Concordant o p) :
    orderItems as cs = .ok (o.then p) := by
  induction as generalizing bs cs with
  | nil =>
    cases bs with
    | nil =>
      cases h
      exact h'
    | cons v bs =>
      cases h
      cases cs with
      | nil =>
        cases h'
        simp [Concordant] at hop
      | cons w cs => rfl
  | cons u as ih =>
    cases bs with
    | nil =>
      cases h
      cases cs with
      | nil => rfl
      | cons w cs =>
        cases h'
        simp [Concordant] at hop
    | cons v bs =>
      cases cs with
      | nil =>
        cases h'
        rcases hop with rfl | rfl | ⟨⟨⟩⟩ <;> rfl
      | cons w cs =>
        have hfirst := @htrans u List.mem_cons_self v List.mem_cons_self w List.mem_cons_self
        rw [orderItems_cons] at h h' ⊢
        rcases h with ⟨huv, hne⟩ | ⟨huv, hrest⟩ <;> rcases h' with ⟨hvw, hne'⟩ | ⟨hvw, hrest'⟩
        · have huw := hfirst huv hvw hop
          rw [then_of_ne hne] at huw ⊢
          exact .inl ⟨huw, hne⟩
        · have huw := hfirst huv hvw (.inr (.inr rfl))
          rw [then_of_ne hne] at huw ⊢
          exact .inl ⟨huw, hne⟩
        · -- The first items tie on the left only, so the order of the rest agrees with `p`.
          have hlast : o.then p = p := by
            rcases hop with rfl | rfl | rfl
            · exact Ordering.then_self
            · rfl
            · exact absurd rfl hne'
          have huw := hfirst huv hvw (.inr (.inl rfl))
          rw [hlast]
          exact .inl ⟨huw, hne'⟩
        · refine .inr ⟨hfirst huv hvw (.inl rfl), ih (fun u hu v hv w hw => ?_) hrest hrest'⟩
          exact htrans u (List.mem_cons_of_mem _ hu) v (List.mem_cons_of_mem _ hv) w
            (List.mem_cons_of_mem _ hw)

end Items

section Laws

variable {a b c : Value} {o p : Ordering}

private theorem order_numbers {i j : Int64} (ha : a.number? = some (.int i))
    (hb : b.number? = some (.int j)) : a.order b = .ok (compare i.toInt j.toInt) := by
  have hother : a.order b = compareNumbers a b := by
    cases a with
    | text s => cases ha
    | list items => cases ha
    | _ => rw [order] <;> simp
  rw [hother, compareNumbers, ha, hb]
  rfl

theorem order_eq_ok (ha : a.RealFree) (hb : b.RealFree) : a.order b = .ok o ↔ Ordered a b o := by
  constructor
  · intro h
    unfold order at h
    split at h
    · cases h
      exact .texts _ _
    · exact .lists h
    · unfold compareNumbers at h
      split at h
      · next x y hx hy =>
        obtain ⟨i, rfl⟩ := ha.number hx
        obtain ⟨j, rfl⟩ := hb.number hy
        cases h
        exact .numbers hx hy
      · cases h
  · intro h
    cases h with
    | numbers hx hy => exact order_numbers hx hy
    | texts s t => rw [order]; rfl
    | lists hitems => rw [order, hitems]

private theorem Ordered.swap (h : Ordered a b o)
    (hlists : ∀ {as bs}, a = .list as → b = .list bs → orderItems as bs = .ok o →
      orderItems bs as = .ok o.swap) : Ordered b a o.swap := by
  cases h with
  | numbers hx hy =>
    rw [← Std.OrientedCmp.eq_swap]
    exact .numbers hy hx
  | texts s t =>
    rw [← Std.OrientedCmp.eq_swap]
    exact .texts t s
  | lists hitems => exact .lists (hlists rfl rfl hitems)

theorem order_swap (ha : a.RealFree) (hb : b.RealFree) (h : a.order b = .ok o) :
    b.order a = .ok o.swap := by
  rw [order_eq_ok ha hb] at h
  rw [order_eq_ok hb ha]
  induction ha generalizing b o with
  | @list as has ih =>
    refine h.swap fun {as bs} ha hbs hitems => ?_
    cases ha
    subst hbs
    refine orderItems_swap (fun v hv w hw o hvw => ?_) hitems
    rw [order_eq_ok (has v hv) (hb.items w hw)] at hvw
    rw [order_eq_ok (hb.items w hw) (has v hv)]
    exact ih v hv (hb.items w hw) hvw
  | _ =>
    refine h.swap fun {as bs} ha => ?_
    cases ha

private theorem Ordered.trans (h : Ordered a b o) (h' : Ordered b c p) (hop : Concordant o p)
    (hlists : ∀ {as bs cs}, a = .list as → b = .list bs → c = .list cs →
      orderItems as bs = .ok o → orderItems bs cs = .ok p → orderItems as cs = .ok (o.then p)) :
    Ordered a c (o.then p) := by
  cases h with
  | numbers hx hy =>
    cases h' with
    | numbers hy' hz =>
      cases hy.symm.trans hy'
      rw [← compare_then hop]
      exact .numbers hx hz
    | texts s t => cases hy
    | lists hitems => cases hy
  | texts s t =>
    cases h' with
    | numbers hy => cases hy
    | texts _ u =>
      rw [← compare_then hop]
      exact .texts s u
  | lists hitems =>
    cases h' with
    | numbers hy => cases hy
    | lists hitems' => exact .lists (hlists rfl rfl rfl hitems hitems')

theorem order_trans (ha : a.RealFree) (hb : b.RealFree) (hc : c.RealFree)
    (h : a.order b = .ok o) (h' : b.order c = .ok p) (hop : Concordant o p) :
    a.order c = .ok (o.then p) := by
  rw [order_eq_ok ha hb] at h
  rw [order_eq_ok hb hc] at h'
  rw [order_eq_ok ha hc]
  induction ha generalizing b c o p with
  | @list as has ih =>
    refine h.trans h' hop fun {as bs cs} ha hbs hcs hitems hitems' => ?_
    cases ha
    subst hbs hcs
    refine orderItems_trans (fun u hu v hv w hw o p huv hvw hop => ?_) hitems hitems' hop
    rw [order_eq_ok (has u hu) (hb.items v hv)] at huv
    rw [order_eq_ok (hb.items v hv) (hc.items w hw)] at hvw
    rw [order_eq_ok (has u hu) (hc.items w hw)]
    exact ih u hu (hb.items v hv) (hc.items w hw) huv hvw hop
  | _ =>
    refine h.trans h' hop fun {as bs cs} ha => ?_
    cases ha

theorem Comparable.symm (ha : a.RealFree) (hb : b.RealFree) (h : a.Comparable b) :
    b.Comparable a := by
  obtain ⟨o, h⟩ := h
  exact ⟨o.swap, order_swap ha hb h⟩

theorem AtMost.comparable (h : a.AtMost b) : a.Comparable b := by
  rcases h with h | h
  · exact ⟨.lt, h⟩
  · exact ⟨.eq, h⟩

theorem AtMost.trans (ha : a.RealFree) (hb : b.RealFree) (hc : c.RealFree) (h : a.AtMost b)
    (h' : b.AtMost c) : a.AtMost c := by
  rcases h with h | h <;> rcases h' with h' | h'
  · exact .inl (order_trans ha hb hc h h' (.inl rfl))
  · exact .inl (order_trans ha hb hc h h' (.inr (.inr rfl)))
  · exact .inl (order_trans ha hb hc h h' (.inr (.inl rfl)))
  · exact .inr (order_trans ha hb hc h h' (.inl rfl))

theorem atMost_of_order_ne_lt (ha : a.RealFree) (hb : b.RealFree) (h : a.order b = .ok o)
    (ho : o ≠ .lt) : b.AtMost a := by
  have hback := order_swap ha hb h
  cases o with
  | lt => exact absurd rfl ho
  | eq => exact .inr hback
  | gt => exact .inl hback

end Laws

end Value

end Stencil
