import Stencil.Proofs.Render.Reach

/-! # The place that the error of a render names -/

namespace Stencil

namespace Rendering

/-- An action that ends with a fault just as a relation says. -/
def Fails {α : Type} (x : Rendering α) (F : World → TemplateError → Prop) : Prop :=
  ∀ s e, (∃ s', x s = .error (.failed e) s') ↔ F s.world e

section Faults

variable {α β : Type} {F G : World → TemplateError → Prop}

private theorem Fails.congr {x : Rendering α} (h : Fails x F) (hF : ∀ w e, F w e ↔ G w e) :
    Fails x G := by
  intro s e
  rw [h s e, hF]

private theorem bind_failed {x : Rendering α} {k : α → Rendering β} {s : Stage}
    {e : TemplateError} :
    (∃ s', (x >>= k) s = .error (.failed e) s') ↔ (∃ s', x s = .error (.failed e) s') ∨
      ∃ a t, x s = .ok a t ∧ ∃ s', k a t = .error (.failed e) s' := by
  change (∃ s', EStateM.bind x k s = _) ↔ _
  unfold EStateM.bind
  cases x s with
  | ok a t =>
    constructor
    · intro h
      exact .inr ⟨a, t, rfl, h⟩
    · rintro (⟨s', h⟩ | ⟨_, _, ⟨⟩, h⟩)
      · cases h
      · exact h
  | error e t => simp

private theorem Fails.bind {x : Rendering α} {k : α → Rendering β} {P : World → α → World → Prop}
    {H : α → World → TemplateError → Prop} (hx : Fails x F) (hg : Gets x P)
    (hk : ∀ a, Fails (k a) (H a)) :
    Fails (x >>= k) fun w e => F w e ∨ ∃ a w₁, P w a w₁ ∧ H a w₁ e := by
  intro s e
  rw [bind_failed, hx s e]
  apply or_congr Iff.rfl
  constructor
  · rintro ⟨a, t, ht, hf⟩
    exact ⟨a, t.world, ((hg s a t).mp ht).1, (hk a t e).mp hf⟩
  · rintro ⟨a, w, hP, hH⟩
    let t : Stage := ⟨w.bindings, s.output, w.loader⟩
    exact ⟨a, t, (hg s a t).mpr ⟨hP, rfl⟩, (hk a t e).mpr hH⟩

private theorem Fails.seq {x y : Rendering Unit} {R : World → List Event → World → Prop}
    (hx : Fails x F) (ht : Tells x R) (hy : Fails y G) :
    Fails (do x; y) fun w e => F w e ∨ ∃ es w₁, R w es w₁ ∧ G w₁ e := by
  intro s e
  rw [bind_failed, hx s e]
  apply or_congr Iff.rfl
  constructor
  · rintro ⟨⟨⟩, t, hok, hf⟩
    obtain ⟨es, hR, -⟩ := (ht s t).mp hok
    exact ⟨es, t.world, hR, (hy t e).mp hf⟩
  · rintro ⟨es, w, hR, hG⟩
    let t : Stage := ⟨w.bindings, s.output ++ (es.map Event.written).toArray, w.loader⟩
    exact ⟨(), t, (ht s t).mpr ⟨es, hR, by simp [t]⟩, (hy t e).mpr hG⟩

private theorem fails_pure (a : α) : Fails (pure a) fun _ _ => False := by
  intro s e
  constructor
  · rintro ⟨s', h⟩
    cases h
  · exact False.elim

private theorem fails_write (text : String) : Fails (write text) fun _ _ => False := by
  intro s e
  constructor
  · rintro ⟨s', h⟩
    cases h
  · exact False.elim

private theorem fails_ofEval (r : Except EvalError α) :
    Fails (ofEval r) fun _ e => ∃ fault, r = .error fault ∧ e = .eval fault := by
  intro s e
  cases r with
  | ok a =>
    constructor
    · rintro ⟨s', h⟩
      cases h
    · rintro ⟨fault, h, -⟩
      cases h
  | error fault =>
    constructor
    · rintro ⟨s', h⟩
      cases h
      exact ⟨fault, rfl, rfl⟩
    · rintro ⟨_, h, rfl⟩
      cases h
      exact ⟨s, rfl⟩

private theorem fails_bindTargets (targets : List String) (unpacks : Bool) (item : Value) :
    Fails (bindTargets targets unpacks item) fun _ e =>
      ∃ fault, loopBindings targets unpacks item = .error fault ∧ e = .eval fault := by
  have hbind : ∀ bindings, Fails (bindAll bindings) fun _ _ => False := by
    intro bindings s e
    constructor
    · rintro ⟨s', h⟩
      cases h
    · exact False.elim
  have h := Fails.bind (fails_ofEval (loopBindings targets unpacks item)) (gets_ofEval _) hbind
  exact h.congr fun w e => by simp

private theorem located_failed {x : Rendering Unit} {name : String} {line : Nat} {s : Stage}
    {e : TemplateError} : (∃ s', located name line x s = .error (.failed e) s') ↔
      ∃ fault, (∃ s', x s = .error (.failed fault) s') ∧ e = fault.atRender name line := by
  unfold Rendering.located
  cases x s with
  | ok a t => simp
  | error halt t =>
    cases halt with
    | failed fault =>
      constructor
      · rintro ⟨s', ⟨⟩⟩
        exact ⟨fault, ⟨t, rfl⟩, rfl⟩
      · rintro ⟨_, ⟨s', ⟨⟩⟩, rfl⟩
        exact ⟨t, rfl⟩
    | tooDeep => simp

private theorem Fails.located {x : Rendering Unit} (h : Fails x F) (name : String) (line : Nat) :
    Fails (located name line x) fun w e => ∃ fault, F w fault ∧ e = fault.atRender name line := by
  intro s e
  rw [located_failed]
  simp only [h s]

private theorem Fails.isolated {x : Rendering Unit} (h : Fails x F) (bindings : Dict Value) :
    Fails (isolated bindings x) fun w e => F ⟨bindings, w.loader⟩ e := by
  intro s e
  refine Iff.trans ?_ (h { s with bindings } e)
  unfold Rendering.isolated
  cases x { s with bindings } <;> simp

private theorem Fails.captured {x : Rendering Unit} (h : Fails x F) (transform : String → String) :
    Fails (captured transform x) F := by
  intro s e
  refine Iff.trans ?_ (h { s with output := #[] } e)
  unfold Rendering.captured
  cases x { s with output := #[] } <;> simp

end Faults

end Rendering

open Rendering

/-- A setting for a template: what it inserts runs and fails as the relations say. -/
structure Setting.Reports (c : Setting) (depth : Nat) (t : Template) : Prop
    extends c.Serves depth t where
  name : c.name = t.name
  fails : ∀ v, Fails (c.insert c.metadata v) fun w =>
    InsertionFails c.host ⟨depth, t, c.metadata, w⟩ v

private theorem Setting.fails_value (c : Setting) (depth : Nat) (t : Template) (f : Formula) :
    Fails (c.value f) fun w e => ∃ fault,
      Spot.Faults c.host ⟨depth, t, c.metadata, w⟩ f fault ∧ e = .eval fault :=
  fun s e => fails_ofEval (f.tree.eval (c.environment s.bindings)) s e

section Executions

variable {c : Setting} {depth : Nat} {t : Template}

/-- A step with a formula in front fails in the formula, or behind its value. -/
private theorem fails_value_bind (depth : Nat) (t : Template) (f : Formula)
    {k : Value → Rendering Unit}
    {H : Value → World → TemplateError → Prop} (hk : ∀ v, Fails (k v) (H v)) :
    Fails (c.value f >>= k) fun w e =>
      (∃ fault, Spot.Faults c.host ⟨depth, t, c.metadata, w⟩ f fault ∧ e = .eval fault) ∨
        ∃ v, Spot.Gives c.host ⟨depth, t, c.metadata, w⟩ f v ∧ H v w e := by
  refine (Fails.bind (c.fails_value depth t f) (c.gets_value f) hk).congr fun w e => ?_
  apply or_congr Iff.rfl
  constructor
  · rintro ⟨v, _, ⟨hv, rfl⟩, hH⟩
    exact ⟨v, hv, hH⟩
  · rintro ⟨v, hv, hH⟩
    exact ⟨v, w, ⟨hv, rfl⟩, hH⟩

private theorem fails_items {body : Block}
    (ht : Tells (runBlock c body) (Runs c.host depth t c.metadata (.block body)))
    (hf : Fails (runBlock c body) fun w => BlockFails c.host ⟨depth, t, c.metadata, w⟩ body)
    (targets : List String) (unpacks : Bool) (items : List Value) :
    Fails (items.forM fun item => do bindTargets targets unpacks item; runBlock c body)
      fun w => ItemsFail c.host ⟨depth, t, c.metadata, w⟩ targets unpacks items body := by
  induction items with
  | nil =>
    refine (fails_pure ()).congr fun w e => ?_
    simp [ItemsFail]
  | cons item items ih =>
    have hbind := fails_bindTargets targets unpacks item
    have hgets := gets_bindTargets targets unpacks item
    have hitem := Fails.bind hbind hgets fun _ => hf
    have htells := Tells.bind hgets fun _ => ht
    refine (hitem.seq htells ih).congr fun w e => ?_
    rw [itemsFail_cons]
    constructor
    · rintro ((hfault | ⟨-, _, ⟨bindings, hb, rfl⟩, hfail⟩) |
        ⟨es, w₁, ⟨-, _, ⟨bindings, hb, rfl⟩, hrun⟩, hrest⟩)
      · exact .inl hfault
      · exact .inr ⟨bindings, hb, .inl hfail⟩
      · exact .inr ⟨bindings, hb, .inr ⟨w₁, ⟨es, hrun⟩, hrest⟩⟩
    · rintro (hfault | ⟨bindings, hb, hfail | ⟨w₁, ⟨es, hrun⟩, hrest⟩⟩)
      · exact .inl (.inl hfault)
      · exact .inl (.inr ⟨(), _, ⟨bindings, hb, rfl⟩, hfail⟩)
      · exact .inr ⟨es, w₁, ⟨(), _, ⟨bindings, hb, rfl⟩, hrun⟩, hrest⟩

mutual

private theorem Step.fails_run (hc : c.Reports depth t) :
    ∀ step : Step, step.outputs ⊆ blockOutputs t.body →
      Fails (step.run c) fun w => StepFails c.host ⟨depth, t, c.metadata, w⟩ step
  | .text content, _ => by
    refine (fails_write content).congr fun w e => ⟨False.elim, ?_⟩
    rintro (hraise | ⟨q, body, henter, -⟩)
    · cases hraise
    · cases henter
  | .output f, _ => by
    refine (fails_value_bind depth t f fun v => fails_write (c.escaped v)).congr fun w e => ?_
    rw [stepFails_output]
    simp
  | .choice clauses none, hf => by
    have hnone : Fails (pure ()) fun w e => ∃ body, (none : Option Block) = some body ∧
        BlockFails c.host ⟨depth, t, c.metadata, w⟩ body e :=
      (fails_pure ()).congr fun w e => by simp
    exact fails_runClauses hc hnone clauses hf
  | .choice clauses (some body), hf => by
    obtain ⟨hclauses, hbody⟩ := List.append_subset.mp hf
    have hlast : Fails (runBlock c body) fun w e => ∃ b, some body = some b ∧
        BlockFails c.host ⟨depth, t, c.metadata, w⟩ b e :=
      (fails_runBlock hc body hbody).congr fun w e => by simp
    exact fails_runClauses hc hlast clauses hclauses
  | .loop targets unpacks f body, hf => by
    have hitems := fails_items (tells_runBlock hc.toServes body hf) (fails_runBlock hc body hf)
      targets unpacks
    have hloop := fun v : Value => Fails.bind (fails_ofEval v.iterate) (gets_ofEval _) hitems
    refine (fails_value_bind depth t f hloop).congr fun w e => ?_
    rw [stepFails_loop]
    apply or_congr Iff.rfl
    apply exists_congr
    intro v
    apply and_congr Iff.rfl
    apply or_congr Iff.rfl
    constructor
    · rintro ⟨items, _, ⟨hi, rfl⟩, hfail⟩
      exact ⟨items, hi, hfail⟩
    · rintro ⟨items, hi, hfail⟩
      exact ⟨items, w, ⟨hi, rfl⟩, hfail⟩
  | .insertion f, _ => by
    refine (fails_value_bind depth t f hc.fails).congr fun w e => ?_
    rw [stepFails_insertion]
  | .captured tag transform body, hf => by
    refine ((fails_runBlock hc body hf).captured transform).congr fun w e => ?_
    rw [stepFails_captured]

private theorem fails_runClauses (hc : c.Reports depth t) {fallback : Rendering Unit}
    {last : Option Block} (hlast : Fails fallback fun w e => ∃ body, last = some body ∧
      BlockFails c.host ⟨depth, t, c.metadata, w⟩ body e) :
    ∀ clauses : List (Formula × List (Located Step)),
      clausesOutputs clauses ⊆ blockOutputs t.body → Fails (runClauses c fallback clauses)
        fun w => StepFails c.host ⟨depth, t, c.metadata, w⟩ (.choice clauses last)
  | [], _ => hlast.congr fun w e => stepFails_choice_nil.symm
  | (f, body) :: rest, hf => by
    obtain ⟨hbody, hrest⟩ := List.append_subset.mp hf
    have hrun := fails_runBlock hc body hbody
    have hmore := fails_runClauses hc hlast rest hrest
    have hpick : ∀ v : Value, Fails (if v.truthy then runBlock c body
        else runClauses c fallback rest) fun w e =>
          v.truthy = true ∧ BlockFails c.host ⟨depth, t, c.metadata, w⟩ body e ∨
            v.truthy = false ∧
              StepFails c.host ⟨depth, t, c.metadata, w⟩ (.choice rest last) e := by
      intro v
      cases v.truthy with
      | true => simpa using hrun
      | false => simpa using hmore
    exact (fails_value_bind depth t f hpick).congr fun w e => stepFails_choice_cons.symm

private theorem fails_runBlock (hc : c.Reports depth t) :
    ∀ body : List (Located Step), blockOutputs body ⊆ blockOutputs t.body →
      Fails (runBlock c body) fun w => BlockFails c.host ⟨depth, t, c.metadata, w⟩ body
  | [], _ => (fails_pure ()).congr fun w e => by simp [blockFails_nil]
  | ⟨line, step⟩ :: rest, hf => by
    obtain ⟨hstep, hrest⟩ := List.append_subset.mp hf
    have hfirst := (Step.fails_run hc step hstep).located c.name line
    have htells := (Step.tells_run hc.toServes step hstep).located c.name line
    refine (hfirst.seq htells (fails_runBlock hc rest hrest)).congr fun w e => ?_
    rw [blockFails_cons, hc.name]
    apply or_congr Iff.rfl
    constructor
    · rintro ⟨es, w₁, hrun, hfail⟩
      exact ⟨w₁, ⟨es, hrun⟩, hfail⟩
    · rintro ⟨w₁, ⟨es, hrun⟩, hfail⟩
      exact ⟨es, w₁, hrun, hfail⟩

end

end Executions

private theorem misses_text {m : Metadata Value} {name : String} {w : World} {e : TemplateError} :
    Misses m (.text name) w e ↔
      ((∀ l, w.loader = some l → m.loader ≠ some l.number) ∧
        e = .eval (.value ("Cannot load '" ++ name ++ "' by name"))) ∨
      ∃ l l', w.loader = some l ∧ m.loader = some l.number ∧ l.load name = (.error e, l') := by
  constructor
  · intro h
    cases h with
    | kind _ hn => exact absurd rfl (hn name)
    | detached hd => exact .inl ⟨hd, rfl⟩
    | unloaded hw hm hl => exact .inr ⟨_, _, hw, hm, hl⟩
  · rintro (⟨hd, rfl⟩ | ⟨l, l', hw, hm, hl⟩)
    · exact .detached hd
    · exact .unloaded hw hm hl

private theorem fails_loadNamed (m : Metadata Value) (name : String) :
    Fails (loadNamed m name) (Misses m (.text name)) := by
  rintro ⟨b, output, loader⟩ e
  rw [misses_text]
  unfold loadNamed
  cases loader with
  | none =>
    constructor
    · rintro ⟨s', ⟨⟩⟩
      exact .inl ⟨by simp [Stage.world], rfl⟩
    · rintro (⟨-, rfl⟩ | ⟨l, l', ⟨⟩, -⟩)
      exact ⟨_, rfl⟩
  | some l =>
    by_cases hm : m.loader = some l.number
    · rcases hl : l.load name with ⟨r, l'⟩
      simp only [if_pos hm]
      constructor
      · intro h
        cases r with
        | ok t => simp [hl] at h
        | error fault =>
          obtain rfl : fault = e := by simpa [hl] using h
          exact .inr ⟨l, l', rfl, hm, hl⟩
      · rintro (⟨hd, -⟩ | ⟨k, k', ⟨⟩, -, hload⟩)
        · exact absurd hm (hd l rfl)
        · simp [hload]
    · simp only [if_neg hm]
      constructor
      · rintro ⟨s', ⟨⟩⟩
        refine .inl ⟨?_, rfl⟩
        rintro k ⟨⟩
        exact hm
      · rintro (⟨-, rfl⟩ | ⟨k, k', ⟨⟩, hk, -⟩)
        · exact ⟨_, rfl⟩
        · exact absurd hk hm

private theorem fails_insertedTemplate (m : Metadata Value) (v : Value) :
    Fails (insertedTemplate m v) (Misses m v) := by
  intro s e
  cases v with
  | text name => exact fails_loadNamed m name s e
  | template t =>
    constructor
    · rintro ⟨s', ⟨⟩⟩
    · intro hm
      cases hm with
      | kind ht => exact absurd rfl (ht t)
  | _ =>
    constructor
    · rintro ⟨s', ⟨⟩⟩
      exact .kind (by simp) (by simp)
    · intro hm
      cases hm
      exact ⟨s, rfl⟩

private theorem Setting.reports_insertAt (host : Host) (depth : Nat) (t : Template)
    (m : Metadata Value) (he : m.escape = t.metadata.escape)
    (hf : ∀ v, Fails (insertAt host depth m v) fun w => InsertionFails host ⟨depth, t, m, w⟩ v) :
    Setting.Reports ⟨t.name, m, host, insertAt host depth⟩ depth t where
  escape := he
  insert v := tells_insertAt host depth t m v
  name := rfl
  fails := hf

/-- Insertions fail as the relation says however deep they go. -/
private theorem fails_insertAt (host : Host) (depth : Nat) (t : Template) (m : Metadata Value)
    (v : Value) :
    Fails (insertAt host depth m v) fun w => InsertionFails host ⟨depth, t, m, w⟩ v := by
  induction depth generalizing t m v with
  | zero =>
    intro s e
    constructor
    · rintro ⟨s', ⟨⟩⟩
    · rintro ⟨depth, ⟨⟩, -⟩
  | succ depth ih =>
    have hrun : ∀ u : Template, Fails (u.runInserted host (insertAt host depth) m none) fun w =>
        BlockFails host (.inserted depth m u w) u.body := by
      intro u s e
      have hreports := Setting.reports_insertAt host depth u
        (Scope.inserted ⟨s.bindings, m⟩ u none).metadata rfl fun v => ih u _ v
      have hbody := fails_runBlock hreports u.body (List.Subset.refl _)
      exact hbody.isolated (Scope.inserted ⟨s.bindings, m⟩ u none).bindings s e
    refine (Fails.bind (fails_insertedTemplate m v) (gets_insertedTemplate m v) hrun).congr
      fun w e => ?_
    constructor
    · rintro (hm | ⟨u, w₁, hfind, hfail⟩)
      · exact ⟨depth, rfl, .inl hm⟩
      · exact ⟨depth, rfl, .inr ⟨u, w₁, hfind, hfail⟩⟩
    · rintro ⟨_, ⟨⟩, hm | ⟨u, w₁, hfind, hfail⟩⟩
      · exact .inl hm
      · exact .inr ⟨u, w₁, hfind, hfail⟩

private theorem Compiled.render_fails {host : Host} {depth : Nat} {t : Template}
    {params : Dict Value} {loader : Option Loader} {e : TemplateError} :
    (t.render host depth params loader).1 = .failed e ↔
      BlockFails host ⟨depth, t, t.metadata, ⟨Dict.extend t.defaults params, loader⟩⟩ t.body e := by
  have hreports := Setting.reports_insertAt host depth t t.metadata rfl fun v =>
    fails_insertAt host depth t _ v
  have hbody := fails_runBlock hreports t.body (List.Subset.refl _)
  have hrun := hbody.isolated (Dict.extend t.defaults params) ⟨[], #[], loader⟩ e
  refine Iff.trans ?_ hrun
  unfold Compiled.render Compiled.runIn
  simp only [Scope.ofTemplate]
  generalize isolated (Dict.extend t.defaults params)
    (runBlock ⟨t.name, t.metadata, host, insertAt host depth⟩ t.body) ⟨[], #[], loader⟩ = r
  rcases r with ⟨a, s⟩ | ⟨halt, s⟩
  · simp
  · cases halt <;> simp

private theorem Compiled.render_failed {host : Host} {depth : Nat} {t : Template}
    {params : Dict Value} {loader : Option Loader} {e : TemplateError} :
    (t.render host depth params loader).1 = .failed e ↔
      ∃ q s fault, Reaches host
          ⟨depth, t, t.metadata, ⟨Dict.extend t.defaults params, loader⟩⟩ t.body q s ∧
        s ∈ blockSegments q.holder.body ∧ Raises host q s.item fault ∧ fault.Raw ∧
        e = .render fault.display q.holder.name s.line := by
  rw [Compiled.render_fails]
  constructor
  · rintro ⟨q, s, fault, hreach, hraise, he⟩
    have hmem := hreach.mem_holder (List.Subset.refl _)
    exact ⟨q, s, fault, hreach, hmem, hraise, hraise.raw, he⟩
  · rintro ⟨q, s, fault, hreach, -, hraise, -, he⟩
    exact ⟨q, s, fault, hreach, hraise, he⟩

/-- A render fails just if it reaches a segment that raises a fault of its own. The error names the
template that holds this segment and the segment's line, and shows the fault, which had no place
before. A fault of loading an inserted template is one of the insertion; the error of a template
that cannot be loaded in the first place is passed on. -/
theorem render_failed_iff (host : Host) (depth : Nat) (params : Dict Value) (e : TemplateError) :
    (∀ (t : Template) (loader : Option Loader),
      (t.render host depth params loader).1 = .failed e ↔
        ∃ q s fault, Reaches host
            ⟨depth, t, t.metadata, ⟨Dict.extend t.defaults params, loader⟩⟩ t.body q s ∧
          s ∈ blockSegments q.holder.body ∧ Raises host q s.item fault ∧ fault.Raw ∧
          e = .render fault.display q.holder.name s.line) ∧
    ∀ (l : Loader) (name : String),
      (l.render host depth name params).1 = .failed e ↔
        (∃ l', l.load name = (.error e, l')) ∨
        ∃ t l' q s fault, l.load name = (.ok t, l') ∧ Reaches host
            ⟨depth, t, t.metadata, ⟨Dict.extend t.defaults params, some l'⟩⟩ t.body q s ∧
          s ∈ blockSegments q.holder.body ∧ Raises host q s.item fault ∧ fault.Raw ∧
          e = .render fault.display q.holder.name s.line := by
  refine ⟨fun t loader => Compiled.render_failed, fun l name => ?_⟩
  unfold Loader.render
  rcases l.load name with ⟨fault | t, l'⟩
  · constructor
    · rintro ⟨⟩
      exact .inl ⟨l', rfl⟩
    · rintro (⟨_, ⟨⟩⟩ | ⟨_, _, _, _, _, ⟨⟩, _⟩)
      rfl
  · dsimp only
    rw [Compiled.render_failed]
    constructor
    · rintro ⟨q, s, fault, h⟩
      exact .inr ⟨t, l', q, s, fault, rfl, h⟩
    · rintro (⟨_, ⟨⟩⟩ | ⟨_, _, q, s, fault, ⟨⟩, h⟩)
      exact ⟨q, s, fault, h⟩

example :
    let bad : Step := .output ⟨"nope", .name "nope"⟩
    let inner : Template := ⟨[⟨1, .text "a"⟩, ⟨3, bad⟩], [], .named "inner", 0⟩
    let outer : Template := ⟨[⟨1, .insertion ⟨"t", .name "t"⟩⟩], [], .named "outer", 1⟩
    (outer.render (fun _ _ => .error .overflow) 1 [("t", .template inner)] none).1 =
      .failed (.render "name 'nope' is not defined" "inner" 3) := by
  rfl

end Stencil
