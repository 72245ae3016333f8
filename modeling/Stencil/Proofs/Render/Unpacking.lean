import Stencil.Proofs.Render.Binding
import Stencil.Proofs.Template.Derivation

/-!
# Loops that unpack

A loop over several targets goes through the items that have a value for each of them, up to the
first that does not.
-/

namespace Stencil

open Dict (Over)

def Value.fits (targets : List String) (item : Value) : Bool :=
  match item.iterate with
  | .ok values => values.length = targets.length
  | .error _ => false

inductive Value.Misfit (targets : List String) (item : Value) : EvalError → Prop where
  | none : (∀ values, item.iterate ≠ .ok values) →
      Misfit targets item (.type ("'" ++ item.typeName ++ "' object is not iterable"))
  | few {values : List Value} : item.iterate = .ok values → values.length < targets.length →
      Misfit targets item (.value ("not enough values to unpack (expected " ++
        Number.naturalText targets.length ++ ", got " ++ Number.naturalText values.length ++ ")"))
  | many {values : List Value} : item.iterate = .ok values → targets.length < values.length →
      Misfit targets item (.value ("too many values to unpack (expected " ++
        Number.naturalText targets.length ++ ")"))

def leading (targets : List String) (items : List Value) : List Value :=
  items.takeWhile (Value.fits targets)

/-- Every target has the value at its place, at the last one if it has several. -/
def Bound (targets : List String) (values : List Value) (b : Dict Value) : Prop :=
  ∀ (i : Nat) x, targets[i]? = some x → x ∉ targets.drop (i + 1) → b.get? x = values[i]?

section Unpacking

variable (c : Setting) (targets : List String) (body : Block)

/-- The block executed for items in order, each time with the targets bound to the values of the
item. -/
inductive Rounds : List Value → Stage → Stage → Prop where
  | none {s} : Rounds [] s s
  | next {item items values s t u} : item.iterate = .ok values → values.length = targets.length →
      runBlock c body { s with bindings := s.bindings.extend (targets.zip values) } = .ok () t →
      Rounds items t u → Rounds (item :: items) s u

/-- Wherever a loop over items comes to, the block does not fail and leaves the targets as they
are. -/
def Harmless (items : List Value) (s : Stage) : Prop :=
  ∀ done item rest values t, items = done ++ item :: rest → Rounds c targets body done s t →
    item.iterate = .ok values → values.length = targets.length →
    let b := t.bindings.extend (targets.zip values)
    ∃ u, runBlock c body { t with bindings := b } = .ok () u ∧
      ∀ x ∈ targets, u.bindings.get? x = b.get? x

/-- How a loop over items ends: the block was executed for the leading ones, and an item after them
stops it before any target is bound. -/
structure Unpacked (items : List Value) (s : Stage) (result : EStateM.Result Halt Stage Unit)
    (t : Stage) : Prop where
  rounds : Rounds c targets body (leading targets items) s t
  all : leading targets items = items → result = .ok () t
  stops : ∀ item rest, items = leading targets items ++ item :: rest →
    ∃ e, item.Misfit targets e ∧ result = .error (.failed (.eval e)) t
  unbound : leading targets items = [] → t = s
  bound : ∀ item ∈ (leading targets items).getLast?,
    ∃ values, item.iterate = .ok values ∧ Bound targets values t.bindings

end Unpacking

private theorem Value.iterate_eq_error {v : Value} {e : EvalError} (h : v.iterate = .error e) :
    e = .type ("'" ++ v.typeName ++ "' object is not iterable") := by
  cases v <;> cases h <;> rfl

section Items

variable {targets : List String} {item : Value} {values : List Value}

private theorem Value.fits_iff : item.fits targets = true ↔
    ∃ values, item.iterate = .ok values ∧ values.length = targets.length := by
  unfold fits
  cases item.iterate <;> simp

private theorem loopBindings_of_fits (h : item.iterate = .ok values)
    (hlength : values.length = targets.length) :
    loopBindings targets true item = .ok (targets.zip values) :=
  unpack_eq_ok.mpr ⟨values, h, hlength, rfl⟩

private theorem loopBindings_of_misfit (h : item.fits targets = false) :
    ∃ e, item.Misfit targets e ∧ loopBindings targets true item = .error e := by
  unfold Value.fits at h
  unfold loopBindings unpack
  cases hitem : item.iterate with
  | error e =>
    have he := Value.iterate_eq_error hitem
    have hnone : ∀ values, item.iterate ≠ .ok values := by simp [hitem]
    subst he
    exact ⟨_, .none hnone, rfl⟩
  | ok values =>
    rw [hitem] at h
    have hne : values.length ≠ targets.length := by simpa using h
    rcases Nat.lt_or_gt_of_ne hne with hlt | hgt
    · refine ⟨_, .few hitem hlt, ?_⟩
      simp only [bind, Except.bind, if_pos hlt, if_true]
    · refine ⟨_, .many hitem hgt, ?_⟩
      have hge : ¬ values.length < targets.length := by omega
      simp only [bind, Except.bind, if_neg hge, if_pos hgt, if_true]

private theorem get?_extend_zip {x : String} (hx : x ∉ targets) (values : List Value)
    (b : Dict Value) :
    (b.extend (targets.zip values)).get? x = b.get? x := by
  have hover : Over (Among targets) b (b.extend (targets.zip values)) :=
    .made (fun _ hentry => (List.of_mem_zip hentry).1) b
  exact hover.get? fun _ => hx

private theorem bound_extend : ∀ {targets : List String} {values : List Value},
    values.length = targets.length → ∀ b : Dict Value,
      Bound targets values (b.extend (targets.zip values))
  | [], _, _, _ => fun i x hx => by simp at hx
  | first :: targets, v :: values, hlength, b => by
    intro i x hx hlast
    have hset : b.extend ((first :: targets).zip (v :: values)) =
        (b.set first v).extend (targets.zip values) := rfl
    rw [hset]
    cases i with
    | zero =>
      obtain rfl : first = x := by simpa using hx
      have hfree : first ∉ targets := hlast
      rw [get?_extend_zip hfree, Dict.get?_set, if_pos rfl]
      rfl
    | succ i =>
      have hlength : values.length = targets.length := Nat.succ.inj hlength
      exact bound_extend hlength _ i x hx hlast

private theorem Bound.keep {b b' : Dict Value} (h : Bound targets values b)
    (hkeep : ∀ x ∈ targets, b'.get? x = b.get? x) : Bound targets values b' := by
  intro i x hx hlast
  rw [hkeep x (List.mem_of_getElem? hx), h i x hx hlast]

private theorem leading_cons_of_fits {items : List Value} (h : item.fits targets = true) :
    leading targets (item :: items) = item :: leading targets items :=
  List.takeWhile_cons_of_pos h

private theorem leading_cons_of_misfit {items : List Value} (h : item.fits targets = false) :
    leading targets (item :: items) = [] :=
  List.takeWhile_cons_of_neg (by simp [h])

end Items

section Loops

variable {c : Setting} {targets : List String} {body : Block} {s : Stage}

private theorem Setting.pass_error {unpacks : Bool} {item : Value} {e : EvalError}
    (h : loopBindings targets unpacks item = .error e) (s : Stage) :
    c.pass targets unpacks body item s = .error (.failed (.eval e)) s := by
  unfold Setting.pass bindTargets
  rw [h]
  rfl

private theorem Harmless.next {item : Value} {items values : List Value} {t : Stage}
    (h : Harmless c targets body (item :: items) s) (hitem : item.iterate = .ok values)
    (hlength : values.length = targets.length)
    (hrun : runBlock c body { s with bindings := s.bindings.extend (targets.zip values) } =
      .ok () t) : Harmless c targets body items t := by
  intro done item' rest values' u hitems hrounds
  exact h (item :: done) item' rest values' u (congrArg (item :: ·) hitems)
    (.next hitem hlength hrun hrounds)

private theorem Unpacked.of_misfit {item : Value} (h : item.fits targets = false)
    (items : List Value) (s : Stage) : Unpacked c targets body (item :: items) s
      ((item :: items).forM (c.pass targets true body) s) s := by
  obtain ⟨e, hmisfit, herror⟩ := loopBindings_of_misfit h
  have hleading : leading targets (item :: items) = [] := leading_cons_of_misfit h
  have hpass : c.pass targets true body item s = .error (.failed (.eval e)) s :=
    Setting.pass_error herror s
  have hstop := forM_cons_at (x := throw (.failed (.eval e))) hpass items
  refine ⟨?_, ?_, ?_, fun _ => rfl, ?_⟩
  · rw [hleading]
    exact .none
  · intro hall
    rw [hleading] at hall
    cases hall
  · intro item' rest hitems
    rw [hleading] at hitems
    obtain ⟨rfl, rfl⟩ := List.cons.inj hitems
    exact ⟨e, hmisfit, hstop⟩
  · rw [hleading]
    simp

private theorem Unpacked.of_fits {item : Value} {items values : List Value} {u t : Stage}
    (hitem : item.iterate = .ok values) (hlength : values.length = targets.length)
    (hrun : runBlock c body { s with bindings := s.bindings.extend (targets.zip values) } =
      .ok () u)
    (hkeep : ∀ x ∈ targets, u.bindings.get? x = (s.bindings.extend (targets.zip values)).get? x)
    (h : Unpacked c targets body items u (items.forM (c.pass targets true body) u) t) :
    Unpacked c targets body (item :: items) s
      ((item :: items).forM (c.pass targets true body) s) t := by
  have hleading : leading targets (item :: items) = item :: leading targets items :=
    leading_cons_of_fits (Value.fits_iff.mpr ⟨values, hitem, hlength⟩)
  have hpass : c.pass targets true body item s = .ok () u :=
    (Setting.pass_eq (loopBindings_of_fits hitem hlength) s).trans hrun
  have hgo : (item :: items).forM (c.pass targets true body) s =
      items.forM (c.pass targets true body) u := forM_cons_at (x := pure ()) hpass items
  rw [hgo]
  refine ⟨?_, ?_, ?_, ?_, ?_⟩
  · rw [hleading]
    exact .next hitem hlength hrun h.rounds
  · intro hall
    rw [hleading] at hall
    exact h.all (List.cons.inj hall).2
  · intro item' rest hitems
    rw [hleading] at hitems
    exact h.stops item' rest (List.cons.inj hitems).2
  · intro hnone
    rw [hleading] at hnone
    cases hnone
  · rw [hleading]
    by_cases hnone : leading targets items = []
    · rw [hnone, h.unbound hnone]
      intro item' hitem'
      obtain rfl : item = item' := by simpa using hitem'
      exact ⟨values, hitem, (bound_extend hlength _).keep hkeep⟩
    · rw [List.getLast?_cons_of_ne_nil hnone]
      exact h.bound

/-- The induction is on the items; the stage is where the block has left it for the items before. -/
private theorem Harmless.unpacked {items : List Value} (h : Harmless c targets body items s) :
    ∃ t, Unpacked c targets body items s (items.forM (c.pass targets true body) s) t := by
  induction items generalizing s with
  | nil =>
    have hstops : ∀ item rest, [] = leading targets [] ++ item :: rest →
        ∃ e, item.Misfit targets e ∧
          [].forM (c.pass targets true body) s = .error (.failed (.eval e)) s := by
      intro item rest hitems
      cases hitems
    exact ⟨s, .none, fun _ => rfl, hstops, fun _ => rfl, fun _ hlast => by cases hlast⟩
  | cons item items ih =>
    cases hfits : item.fits targets with
    | false => exact ⟨s, .of_misfit hfits items s⟩
    | true =>
      obtain ⟨values, hitem, hlength⟩ := Value.fits_iff.mp hfits
      obtain ⟨u, hrun, hkeep⟩ := h [] item items values s rfl .none hitem hlength
      obtain ⟨t, ht⟩ := ih (h.next hitem hlength hrun)
      exact ⟨t, .of_fits hitem hlength hrun hkeep ht⟩

end Loops

private theorem Assembly.header_unpacks {a : Assembly} {line : Nat} {names source : List Char}
    {targets : List String} {unpacks : Bool} {f : Formula}
    (h : a.header line (.loop names source) = .ok (a.openBlock line (.loop targets unpacks f))) :
    unpacks = names.contains ',' := by
  obtain ⟨parsed, -, hrest⟩ := bind_eq_ok.mp h
  obtain ⟨g, -, heq⟩ := bind_eq_ok.mp hrest
  cases heq
  rfl

/-- A loop whose names were written with a comma evaluates its iterable once. It executes the block
for the items with as many values as there are targets, each value bound to the target at its place,
up to the first item that has more or fewer values or none. That one stops it, with the targets as
the item before has left them. -/
theorem loop_unpacks {c : Setting} {a : Assembly} {line : Nat} {names source : List Char}
    {targets : List String} {unpacks : Bool} {f : Formula} {body : Block} {s : Stage} {v : Value}
    {items : List Value}
    (htag : a.header line (.loop names source) = .ok (a.openBlock line (.loop targets unpacks f)))
    (hcomma : ',' ∈ names) (hv : f.tree.eval (c.environment s.bindings) = .ok v)
    (hitems : v.iterate = .ok items) (hbody : Harmless c targets body items s) :
    (∃ t, Unpacked c targets body items s ((Step.loop targets unpacks f body).run c s) t) ∧
      ∀ (values : List Value) (b : Dict Value), values.length = targets.length →
        Bound targets values (b.extend (targets.zip values)) ∧
          ∀ x ∉ targets, (b.extend (targets.zip values)).get? x = b.get? x := by
  have hunpacks : unpacks = true := by
    rw [Assembly.header_unpacks htag, List.contains_iff_mem]
    exact hcomma
  constructor
  · rw [hunpacks, Step.run_loop hv hitems]
    exact hbody.unpacked
  · intro values b hlength
    exact ⟨bound_extend hlength b, fun x hx => get?_extend_zip hx values b⟩

/-- A loop whose block binds the name of the iterable, stopped by a character too few. -/
theorem loop_unpacks_rebound :
    let host : Host := fun _ _ => .error .overflow
    let c : Setting := ⟨"t", ⟨"t", none, none, []⟩, host, insertAt host 0⟩
    let f : Formula := ⟨"s", .name "s"⟩
    let body : Block := [⟨1, .loop ["s"] false ⟨"'x'", .literal (.text "x")⟩ []⟩, ⟨1, .text "y"⟩]
    let items : List Value := [.text "ab", .text "cd", .text "e", .text "fg"]
    let s : Stage := ⟨[("s", .list items)], #[], none⟩
    Harmless c ["k", "v"] body items s ∧
      ∃ e t, (Value.text "e").Misfit ["k", "v"] e ∧
        (Step.loop ["k", "v"] true f body).run c s = .error (.failed (.eval e)) t ∧
        t.bindings.get? "k" = some (.text "c") ∧ t.bindings.get? "v" = some (.text "d") := by
  intro host c f body items s
  have hkeep : ∀ b : Dict Value, ∀ x ∈ ["k", "v"], (b.set "s" (.text "x")).get? x = b.get? x := by
    intro b x hx
    have hne : "s" ≠ x := by
      rintro rfl
      exact absurd hx (by decide)
    rw [Dict.get?_set, if_neg hne]
  have hbody : Harmless c ["k", "v"] body items s := by
    intro done item rest values t _ _ _ _ b
    exact ⟨⟨b.set "s" (.text "x"), t.output.push "y", t.loader⟩, rfl, hkeep b⟩
  have htag : Assembly.start.header 1 (.loop ['k', ',', 'v'] ['s']) =
      .ok (Assembly.start.openBlock 1 (.loop ["k", "v"] true f)) := rfl
  have hv : f.tree.eval (c.environment s.bindings) = .ok (.list items) := rfl
  obtain ⟨⟨t, h⟩, -⟩ := loop_unpacks htag (by decide) hv rfl hbody
  obtain ⟨e, hmisfit, hstop⟩ := h.stops (.text "e") [.text "fg"] rfl
  obtain ⟨values, hvalues, hbound⟩ := h.bound (.text "cd") rfl
  cases hvalues
  exact ⟨hbody, e, t, hmisfit, hstop, hbound 0 "k" rfl (by decide), hbound 1 "v" rfl (by decide)⟩

end Stencil
