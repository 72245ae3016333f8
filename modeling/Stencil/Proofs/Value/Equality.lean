import Stencil.Proofs.Value.Order
import Stencil.Proofs.Value.Views

/-!
# Equality of values without real numbers

It is an equivalence, and it is what the order of two values that have one calls equal. Lists are
equal by their places and maps by their keys.
-/

namespace Stencil

namespace Value

/-- Values with no real number in them, whose maps have every key once. -/
inductive Exact : Value → Prop where
  | none : Exact .none
  | bool (b : Bool) : Exact (.bool b)
  | int (i : Int64) : Exact (.int i)
  | text (s : String) : Exact (.text s)
  | list {items : List Value} : (∀ v ∈ items, Exact v) → Exact (.list items)
  | map {entries : Dict Value} : entries.keys.Nodup → (∀ entry ∈ entries, Exact entry.2) →
      Exact (.map entries)
  | template (t : Template) : Exact (.template t)
  | function (f : Function) : Exact (.function f)

private theorem Exact.realFree {v : Value} (h : v.Exact) : v.RealFree := by
  induction h with
  | none => exact .none
  | bool b => exact .bool b
  | int i => exact .int i
  | text s => exact .text s
  | list _ ih => exact .list ih
  | map _ _ ih => exact .map ih
  | template t => exact .template t
  | function f => exact .function f

section Parts

variable {x y z : Option Value}

private theorem Alike.refl (h : ∀ v, x = some v → v.equal v = true) : Alike x x := by
  cases x with
  | none => exact .none
  | some v => exact .some (h v rfl)

private theorem Alike.symm (hxy : Alike x y)
    (h : ∀ v w, x = some v → y = some w → v.equal w = true → w.equal v = true) : Alike y x := by
  cases hxy with
  | some hvw => exact .some (h _ _ rfl rfl hvw)
  | none => exact .none

private theorem Alike.trans (hxy : Alike x y) (hyz : Alike y z)
    (h : ∀ u v w, x = some u → y = some v → z = some w → u.equal v = true → v.equal w = true →
      u.equal w = true) : Alike x z := by
  cases hxy with
  | some huv =>
    cases hyz with
    | some hvw => exact .some (h _ _ _ rfl rfl rfl huv hvw)
  | none => exact hyz

private theorem not_alike_none_some {v : Value} : ¬ Alike Option.none (some v) := nofun

private theorem not_alike_some_none {v : Value} : ¬ Alike (some v) Option.none := nofun

private theorem alike_some {v w : Value} : Alike (some v) (some w) ↔ v.equal w = true := by
  constructor
  · intro h
    cases h with
    | some h => exact h
  · exact fun h => .some h

private theorem equalItems_iff {as bs : List Value} :
    equalItems as bs = true ↔ ∀ i : Nat, Alike as[i]? bs[i]? := by
  induction as generalizing bs with
  | nil =>
    cases bs with
    | nil => exact ⟨fun _ _ => .none, fun _ => rfl⟩
    | cons b bs => exact ⟨nofun, fun h => (not_alike_none_some (h 0)).elim⟩
  | cons a as ih =>
    cases bs with
    | nil => exact ⟨nofun, fun h => (not_alike_some_none (h 0)).elim⟩
    | cons b bs =>
      rw [equalItems, Bool.and_eq_true, ih]
      constructor
      · rintro ⟨hfirst, hrest⟩ i
        cases i with
        | zero => exact .some hfirst
        | succ i => exact hrest i
      · intro h
        exact ⟨alike_some.mp (h 0), fun i => h (i + 1)⟩

end Parts

inductive Equals : Value → Value → Prop where
  | none : Equals .none .none
  | numbers {a b : Value} {i : Int64} : a.number? = some (.int i) → b.number? = some (.int i) →
      Equals a b
  | texts (s : String) : Equals (.text s) (.text s)
  | lists {as bs : List Value} : (∀ i : Nat, Alike as[i]? bs[i]?) → Equals (.list as) (.list bs)
  | maps {as bs : Dict Value} : (∀ k, Alike (as.get? k) (bs.get? k)) → Equals (.map as) (.map bs)
  | templates {t u : Template} : t.serial = u.serial → Equals (.template t) (.template u)
  | functions (f : Function) : Equals (.function f) (.function f)

inductive Part : Value → Value → Prop where
  | item {items : List Value} {v : Value} : v ∈ items → Part v (.list items)
  | entry {entries : Dict Value} {k : String} {v : Value} : entries.get? k = some v →
      Part v (.map entries)

private theorem Part.place {items : List Value} {i : Nat} {v : Value} (h : items[i]? = some v) :
    Part v (.list items) :=
  .item (List.mem_of_getElem? h)

namespace Exact

variable {a v : Value}

private theorem part (h : a.Exact) (hv : Part v a) : v.Exact := by
  cases hv with
  | item hv =>
    cases h with
    | list hitems => exact hitems v hv
  | entry hv =>
    cases h with
    | map _ hentries => exact hentries _ (Dict.mem_of_get? hv)

private theorem distinct {entries : Dict Value} (h : Exact (.map entries)) :
    (Dict.keys entries).Nodup := by
  cases h with
  | map hkeys _ => exact hkeys

private theorem parts_induction {P : ∀ a : Value, a.Exact → Prop}
    (step : ∀ a (ha : a.Exact), (∀ v (hv : Part v a), P v (ha.part hv)) → P a ha)
    (a : Value) (h : a.Exact) : P a h := by
  -- Keys are distinct, so the parts of a map are just the values of its entries.
  induction h with
  | list hitems ih =>
    refine step _ (.list hitems) fun v hv => ?_
    cases hv with
    | item hv => exact ih v hv
  | map hkeys hentries ih =>
    refine step _ (.map hkeys hentries) fun v hv => ?_
    cases hv with
    | entry hv => exact ih _ (Dict.mem_of_get? hv)
  | none => exact step _ .none nofun
  | bool b => exact step _ (.bool b) nofun
  | int i => exact step _ (.int i) nofun
  | text s => exact step _ (.text s) nofun
  | template t => exact step _ (.template t) nofun
  | function f => exact step _ (.function f) nofun

end Exact

namespace Equals

variable {a b c : Value}

private theorem symm (h : Equals a b)
    (hparts : ∀ v w, Part v a → Part w b → v.equal w = true → w.equal v = true) : Equals b a := by
  cases h with
  | none => exact .none
  | numbers hx hy => exact .numbers hy hx
  | texts s => exact .texts s
  | lists hitems =>
    exact .lists fun i => (hitems i).symm fun v w hv hw => hparts v w (.place hv) (.place hw)
  | maps hentries =>
    exact .maps fun k => (hentries k).symm fun v w hv hw => hparts v w (.entry hv) (.entry hw)
  | templates h => exact .templates h.symm
  | functions f => exact .functions f

private theorem trans (h : Equals a b) (h' : Equals b c)
    (hparts : ∀ u v w, Part u a → Part v b → Part w c → u.equal v = true → v.equal w = true →
      u.equal w = true) : Equals a c := by
  cases h with
  | none => exact h'
  | numbers hx hy =>
    cases h' with
    | numbers hy' hz =>
      cases hy.symm.trans hy'
      exact .numbers hx hz
    | _ => cases hy
  | texts s => exact h'
  | lists hitems =>
    cases h' with
    | numbers hx => cases hx
    | lists hitems' =>
      exact .lists fun i => (hitems i).trans (hitems' i) fun u v w hu hv hw =>
        hparts u v w (.place hu) (.place hv) (.place hw)
  | maps hentries =>
    cases h' with
    | numbers hx => cases hx
    | maps hentries' =>
      exact .maps fun k => (hentries k).trans (hentries' k) fun u v w hu hv hw =>
        hparts u v w (.entry hu) (.entry hv) (.entry hw)
  | templates h =>
    cases h' with
    | numbers hx => cases hx
    | templates h' => exact .templates (h.trans h')
  | functions f => exact h'

end Equals

section Laws

variable {a b c : Value}

private theorem equal_numbers {i j : Int64} (ha : a.number? = some (.int i))
    (hb : b.number? = some (.int j)) : a.equal b = true ↔ i = j := by
  have hother : a.equal b = equalNumbers a b := by
    cases a with
    | bool _ => rw [equal] <;> simp
    | int _ => rw [equal] <;> simp
    | _ => cases ha
  rw [hother, equalNumbers, ha, hb]
  exact beq_iff_eq

private theorem equal_iff (ha : a.Exact) (hb : b.Exact) : a.equal b = true ↔ Equals a b := by
  constructor
  · intro h
    unfold equal at h
    split at h
    · exact .none
    · cases beq_iff_eq.mp h
      exact .texts _
    · exact .lists (equalItems_iff.mp h)
    · next as bs =>
      have hmap : (map as).equal (map bs) = true := by
        rw [equal]
        exact h
      exact .maps ((equal_map_iff ha.distinct hb.distinct).mp hmap)
    · exact .templates (beq_iff_eq.mp h)
    · cases beq_iff_eq.mp h
      exact .functions _
    · unfold equalNumbers at h
      split at h
      · next x y hx hy =>
        obtain ⟨i, rfl⟩ := ha.realFree.number hx
        obtain ⟨j, rfl⟩ := hb.realFree.number hy
        cases beq_iff_eq.mp h
        exact .numbers hx hy
      · cases h
  · intro h
    cases h with
    | none => rfl
    | numbers hx hy => exact (equal_numbers hx hy).mpr rfl
    | texts s => simp [equal]
    | lists hitems => exact equalItems_iff.mpr hitems
    | maps hentries => exact (equal_map_iff ha.distinct hb.distinct).mpr hentries
    | templates h => simp [equal, h]
    | functions f => simp [equal]

private theorem equals_self (ha : a.Exact) (hparts : ∀ v, Part v a → v.equal v = true) :
    Equals a a := by
  cases ha with
  | none => exact .none
  | bool b => exact .numbers rfl rfl
  | int i => exact .numbers rfl rfl
  | text s => exact .texts s
  | list _ => exact .lists fun i => .refl fun v hv => hparts v (.place hv)
  | map _ _ => exact .maps fun k => .refl fun v hv => hparts v (.entry hv)
  | template t => exact .templates rfl
  | function f => exact .functions f

private theorem equal_refl (ha : a.Exact) : a.equal a = true := by
  induction a, ha using Exact.parts_induction with
  | step a ha ih => exact (equal_iff ha ha).mpr (equals_self ha ih)

private theorem equal_symm (ha : a.Exact) (hb : b.Exact) (h : a.equal b = true) :
    b.equal a = true := by
  induction a, ha using Exact.parts_induction generalizing b with
  | step a ha ih =>
    rw [equal_iff hb ha]
    exact ((equal_iff ha hb).mp h).symm fun v w hv hw => ih v hv (hb.part hw)

private theorem equal_trans (ha : a.Exact) (hb : b.Exact) (hc : c.Exact) (h : a.equal b = true)
    (h' : b.equal c = true) : a.equal c = true := by
  induction a, ha using Exact.parts_induction generalizing b c with
  | step a ha ih =>
    rw [equal_iff ha hc]
    exact ((equal_iff ha hb).mp h).trans ((equal_iff hb hc).mp h') fun u v w hu hv hw =>
      ih u hu (hb.part hv) (hc.part hw)

private theorem orderItems_eq_iff {as bs : List Value} {o : Ordering}
    (h : orderItems as bs = .ok o)
    (heq : ∀ v ∈ as, ∀ w ∈ bs, ∀ {o}, v.order w = .ok o → (o = .eq ↔ v.equal w = true)) :
    o = .eq ↔ equalItems as bs = true := by
  induction as generalizing bs with
  | nil =>
    cases bs with
    | nil =>
      cases h
      simp [equalItems]
    | cons w bs =>
      cases h
      simp [equalItems]
  | cons v as ih =>
    cases bs with
    | nil =>
      cases h
      simp [equalItems]
    | cons w bs =>
      have hfirst := @heq v List.mem_cons_self w List.mem_cons_self
      rw [equalItems, Bool.and_eq_true]
      rw [orderItems_cons] at h
      rcases h with ⟨hvw, hne⟩ | ⟨hvw, hrest⟩
      · exact ⟨fun he => absurd he hne, fun he => (hfirst hvw).mpr he.1⟩
      · have hsame := (hfirst hvw).mp rfl
        have hafter := ih hrest fun v hv w hw =>
          heq v (List.mem_cons_of_mem _ hv) w (List.mem_cons_of_mem _ hw)
        rw [hafter]
        exact ⟨fun he => ⟨hsame, he⟩, And.right⟩

private theorem compare_toInt_eq {i j : Int64} : compare i.toInt j.toInt = .eq ↔ i = j :=
  Std.LawfulEqCmp.compare_eq_iff_eq.trans Int64.toInt_inj

private theorem order_eq_iff (ha : a.Exact) (hb : b.Exact) {o : Ordering} (h : a.order b = .ok o) :
    o = .eq ↔ a.equal b = true := by
  induction a, ha using Exact.parts_induction generalizing b o with
  | step a ha ih =>
    cases (order_eq_ok ha.realFree hb.realFree).mp h with
    | numbers hx hy => rw [compare_toInt_eq, equal_numbers hx hy]
    | texts s t => rw [Std.LawfulEqCmp.compare_eq_iff_eq, equal, beq_iff_eq]
    | lists hitems =>
      rw [equal]
      exact orderItems_eq_iff hitems fun v hv w hw _ hvw =>
        ih v (.item hv) (hb.part (.item hw)) hvw

private theorem AtMost.trans_lt (ha : a.RealFree) (hb : b.RealFree) (hc : c.RealFree)
    (h : a.AtMost b) (h' : b.AtMost c) (hstrict : a.order b = .ok .lt ∨ b.order c = .ok .lt) :
    a.order c = .ok .lt := by
  rcases hstrict with hlt | hlt
  · rcases h' with h' | h'
    · exact order_trans ha hb hc hlt h' (.inl rfl)
    · exact order_trans ha hb hc hlt h' (.inr (.inr rfl))
  · rcases h with h | h
    · exact order_trans ha hb hc h hlt (.inl rfl)
    · exact order_trans ha hb hc h hlt (.inr (.inl rfl))

/-- Values without real numbers have an order one way round just if they have the opposite one the
other way round. Their equality is an equivalence, values that have an order are equal just if the
order says so, and of three values of which each is at most the next the first is at most the last,
and less than it if one of the steps is strict. -/
theorem order_agrees (ha : a.Exact) (hb : b.Exact) (hc : c.Exact) :
    (∀ o, a.order b = .ok o ↔ b.order a = .ok o.swap) ∧
    (a.equal a = true ∧ (a.equal b = true ↔ b.equal a = true) ∧
      (a.equal b = true → b.equal c = true → a.equal c = true)) ∧
    (∀ o, a.order b = .ok o → (o = .eq ↔ a.equal b = true)) ∧
    (a.AtMost b → b.AtMost c → a.AtMost c ∧
      (a.order b = .ok .lt ∨ b.order c = .ok .lt → a.order c = .ok .lt)) := by
  have ha' := ha.realFree
  have hb' := hb.realFree
  have hc' := hc.realFree
  refine ⟨fun o => ⟨order_swap ha' hb', fun h => ?_⟩,
    ⟨equal_refl ha, ⟨equal_symm ha hb, equal_symm hb ha⟩, equal_trans ha hb hc⟩,
    fun o => order_eq_iff ha hb, fun h h' => ⟨h.trans ha' hb' hc' h', h.trans_lt ha' hb' hc' h'⟩⟩
  rw [← Ordering.swap_swap (o := o)]
  exact order_swap hb' ha' h

end Laws

/-- Truth values count as integers, and what has no order does not matter behind a difference. -/
theorem order_agrees_nested :
    let a : Value := .list [.list [.bool true, .text "x"], .int 0]
    let b : Value := .list [.list [.int 1, .text "x"], .bool false]
    let c : Value := .list [.list [.int 1, .text "y"], .map [("k", .none), ("l", .list [])]]
    (a.Exact ∧ b.Exact ∧ c.Exact ∧ a.AtMost b ∧ b.AtMost c) ∧ a.equal b = true ∧
      b.order a = .ok .eq ∧ a.order c = .ok .lt ∧ c.order b = .ok .gt ∧ c.equal c = true := by
  intro a b c
  have hnested : ∀ {v w : Value}, v.Exact → w.Exact → Exact (.list [v, w]) := fun hv hw =>
    .list (by simpa using ⟨hv, hw⟩)
  have ha : a.Exact := hnested (hnested (.bool _) (.text _)) (.int _)
  have hb : b.Exact := hnested (hnested (.int _) (.text _)) (.bool _)
  have hmap : Exact (.map [("k", .none), ("l", .list [])]) :=
    .map (by decide) (by simpa using ⟨Exact.none, Exact.list nofun⟩)
  have hc : c.Exact := hnested (hnested (.int _) (.text _)) hmap
  have hab : a.order b = .ok .eq := by rfl
  have hbc : b.order c = .ok .lt := by rfl
  obtain ⟨hswap, -, hequal, htrans⟩ := order_agrees ha hb hc
  obtain ⟨hback, ⟨hrefl, -⟩, -⟩ := order_agrees hc hb ha
  have hlt := (htrans (.inr hab) (.inl hbc)).2 (.inr hbc)
  exact ⟨⟨ha, hb, hc, .inr hab, .inl hbc⟩, (hequal _ hab).mp rfl, (hswap _).mp hab, hlt,
    (hback _).mpr hbc, hrefl⟩

end Value

end Stencil
