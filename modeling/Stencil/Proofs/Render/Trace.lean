import Stencil.Render.Basic

/-! # What a render writes -/

namespace Stencil

mutual

/-- The formulas whose values a step writes, in the order of the source. -/
def Step.outputs : Step → List Formula
  | .text _ => []
  | .output f => [f]
  | .choice clauses none => clausesOutputs clauses
  | .choice clauses (some body) => clausesOutputs clauses ++ blockOutputs body
  | .loop _ _ _ body => blockOutputs body
  | .insertion _ => []
  | .captured _ _ body => blockOutputs body

def clausesOutputs : List (Formula × List (Located Step)) → List Formula
  | [] => []
  | (_, body) :: rest => blockOutputs body ++ clausesOutputs rest

def blockOutputs : List (Located Step) → List Formula
  | [] => []
  | ⟨_, step⟩ :: rest => step.outputs ++ blockOutputs rest

end

/-- What is written at one time: text of a source, the value of a tag of a template, or the
transformed output of a block. -/
inductive Event where
  | text (content : String)
  | shown (holder : Template) (v : Value)
  | transformed (content : String)

/-- The output of an event. A value is escaped as the template that holds the tag says. -/
def Event.written : Event → String
  | text content => content
  | shown holder v =>
    match holder.metadata.escape with
    | some escape => escape v.display
    | none => v.display
  | transformed content => content

structure World where
  bindings : Dict Value
  loader : Option Loader

def Stage.world (s : Stage) : World :=
  ⟨s.bindings, s.loader⟩

private theorem Stage.ext_world {s t : Stage} (hw : s.world = t.world) (ho : s.output = t.output) :
    s = t := by
  cases s
  cases t
  cases hw
  cases ho
  rfl

inductive Task where
  | step (s : Step)
  | clauses (clauses : List (Formula × Block)) (fallback : Block)
  | items (targets : List String) (unpacks : Bool) (items : List Value) (body : Block)
  | block (body : Block)
  | insertion (target : Value)

inductive Finds (m : Metadata Value) : Value → World → Template → World → Prop where
  | template (t : Template) (w : World) : Finds m (.template t) w t w
  | name {name : String} {b : Dict Value} {l l' : Loader} {t : Template} :
      m.loader = some l.number → l.load name = (.ok t, l') →
      Finds m (.text name) ⟨b, some l⟩ t ⟨b, some l'⟩

def World.Gives (w : World) (host : Host) (m : Metadata Value) (f : Formula) (v : Value) : Prop :=
  f.tree.eval ⟨Scope.lookup ⟨w.bindings, m⟩, host⟩ = .ok v

/-- Executions without a fault, insertions at most so deep: the template whose source is executed,
the metadata it is executed with, what is executed, and the events from one world to another. -/
inductive Runs (host : Host) :
    Nat → Template → Metadata Value → Task → World → List Event → World → Prop where
  | text {depth t m content w} : Runs host depth t m (.step (.text content)) w [.text content] w
  | output {depth t m f w v} : f ∈ blockOutputs t.body → w.Gives host m f v →
      Runs host depth t m (.step (.output f)) w [.shown t v] w
  | choice {depth t m clauses otherwise w es w'} :
      Runs host depth t m (.clauses clauses (otherwise.getD [])) w es w' →
      Runs host depth t m (.step (.choice clauses otherwise)) w es w'
  | loop {depth t m targets unpacks f body w v items es w'} :
      w.Gives host m f v → v.iterate = .ok items →
      Runs host depth t m (.items targets unpacks items body) w es w' →
      Runs host depth t m (.step (.loop targets unpacks f body)) w es w'
  | insertion {depth t m f w v es w'} : w.Gives host m f v →
      Runs host depth t m (.insertion v) w es w' →
      Runs host depth t m (.step (.insertion f)) w es w'
  | captured {depth t m tag transform body w es w'} : Runs host depth t m (.block body) w es w' →
      Runs host depth t m (.step (.captured tag transform body)) w
        [.transformed (transform (String.join (es.map Event.written)))] ⟨w.bindings, w'.loader⟩
  | fallback {depth t m body w es w'} : Runs host depth t m (.block body) w es w' →
      Runs host depth t m (.clauses [] body) w es w'
  | holds {depth t m f body rest fallback w v es w'} : w.Gives host m f v → v.truthy = true →
      Runs host depth t m (.block body) w es w' →
      Runs host depth t m (.clauses ((f, body) :: rest) fallback) w es w'
  | fails {depth t m f body rest fallback w v es w'} : w.Gives host m f v → v.truthy = false →
      Runs host depth t m (.clauses rest fallback) w es w' →
      Runs host depth t m (.clauses ((f, body) :: rest) fallback) w es w'
  | noItems {depth t m targets unpacks body w} :
      Runs host depth t m (.items targets unpacks [] body) w [] w
  | item {depth t m targets unpacks item items body bindings w w₁ w₂ es fs} :
      loopBindings targets unpacks item = .ok bindings →
      Runs host depth t m (.block body) ⟨w.bindings.extend bindings, w.loader⟩ es w₁ →
      Runs host depth t m (.items targets unpacks items body) w₁ fs w₂ →
      Runs host depth t m (.items targets unpacks (item :: items) body) w (es ++ fs) w₂
  | nothing {depth t m w} : Runs host depth t m (.block []) w [] w
  | next {depth t m line step rest w w₁ w₂ es fs} : Runs host depth t m (.step step) w es w₁ →
      Runs host depth t m (.block rest) w₁ fs w₂ →
      Runs host depth t m (.block (⟨line, step⟩ :: rest)) w (es ++ fs) w₂
  /-- The inserted template is executed over the bindings there; those come back afterwards. -/
  | inserted {depth t m v w w₁ w₂ u es} : Finds m v w u w₁ →
      Runs host depth u (Scope.inserted ⟨w₁.bindings, m⟩ u none).metadata (.block u.body)
        ⟨(Scope.inserted ⟨w₁.bindings, m⟩ u none).bindings, w₁.loader⟩ es w₂ →
      Runs host (depth + 1) t m (.insertion v) w es ⟨w₁.bindings, w₂.loader⟩

namespace Rendering

/-- An action that ends without a fault just as a relation says, writing what the events write. -/
def Tells (x : Rendering Unit) (R : World → List Event → World → Prop) : Prop :=
  ∀ s s', x s = .ok () s' ↔ ∃ es, R s.world es s'.world ∧
    s'.output.toList = s.output.toList ++ es.map Event.written

def Gets {α : Type} (x : Rendering α) (R : World → α → World → Prop) : Prop :=
  ∀ s a s', x s = .ok a s' ↔ R s.world a s'.world ∧ s'.output = s.output

section Laws

variable {α : Type} {R Q : World → List Event → World → Prop}

private theorem Tells.congr {x : Rendering Unit} (h : Tells x R)
    (hR : ∀ w es w', R w es w' ↔ Q w es w') : Tells x Q := by
  intro s s'
  rw [h s s']
  simp only [hR]

private theorem bind_ok {β : Type} {x : Rendering α} {k : α → Rendering β} {s s' : Stage} {b : β} :
    (x >>= k) s = .ok b s' ↔ ∃ a t, x s = .ok a t ∧ k a t = .ok b s' := by
  change EStateM.bind x k s = _ ↔ _
  unfold EStateM.bind
  cases x s with
  | ok a t =>
    constructor
    · intro h
      exact ⟨a, t, rfl, h⟩
    · rintro ⟨_, _, ⟨⟩, h⟩
      exact h
  | error e t => simp

theorem Tells.bind {x : Rendering α} {k : α → Rendering Unit} {P : World → α → World → Prop}
    {R : α → World → List Event → World → Prop} (hx : Gets x P) (hk : ∀ a, Tells (k a) (R a)) :
    Tells (x >>= k) fun w es w' => ∃ a w₁, P w a w₁ ∧ R a w₁ es w' := by
  intro s s'
  rw [bind_ok]
  constructor
  · rintro ⟨a, t, ht, hs⟩
    obtain ⟨hP, ho⟩ := (hx s a t).mp ht
    obtain ⟨es, hR, hw⟩ := (hk a t s').mp hs
    exact ⟨es, ⟨a, t.world, hP, hR⟩, by rw [hw, ho]⟩
  · rintro ⟨es, ⟨a, w, hP, hR⟩, hw⟩
    exact ⟨a, ⟨w.bindings, s.output, w.loader⟩, (hx _ _ _).mpr ⟨hP, rfl⟩,
      (hk a _ s').mpr ⟨es, hR, hw⟩⟩

private theorem Tells.seq {x y : Rendering Unit} (hx : Tells x R) (hy : Tells y Q) :
    Tells (do x; y) fun w es w' => ∃ es₁ w₁ es₂, R w es₁ w₁ ∧ Q w₁ es₂ w' ∧ es = es₁ ++ es₂ := by
  intro s s'
  rw [bind_ok]
  constructor
  · rintro ⟨⟨⟩, t, ht, hs⟩
    obtain ⟨es₁, hR, ho⟩ := (hx s t).mp ht
    obtain ⟨es₂, hQ, hw⟩ := (hy t s').mp hs
    refine ⟨es₁ ++ es₂, ⟨es₁, t.world, es₂, hR, hQ, rfl⟩, ?_⟩
    rw [hw, ho, List.map_append, List.append_assoc]
  · rintro ⟨es, ⟨es₁, w, es₂, hR, hQ, rfl⟩, hw⟩
    let t : Stage := ⟨w.bindings, s.output ++ (es₁.map Event.written).toArray, w.loader⟩
    refine ⟨(), t, (hx s t).mpr ⟨es₁, hR, by simp [t]⟩, (hy t s').mpr ⟨es₂, hQ, ?_⟩⟩
    simp [t, hw]

private theorem tells_pure : Tells (pure ()) fun w es w' => es = [] ∧ w' = w := by
  intro s s'
  constructor
  · rintro ⟨⟩
    exact ⟨[], ⟨rfl, rfl⟩, by simp⟩
  · rintro ⟨es, ⟨rfl, hw⟩, ho⟩
    have he : s' = s := Stage.ext_world hw (Array.toList_inj.mp (by simpa using ho))
    rw [he]
    rfl

private theorem tells_write (e : Event) :
    Tells (write e.written) fun w es w' => es = [e] ∧ w' = w := by
  intro s s'
  constructor
  · rintro ⟨⟩
    exact ⟨[e], ⟨rfl, rfl⟩, by simp⟩
  · rintro ⟨es, ⟨rfl, hw⟩, ho⟩
    have he : s' = { s with output := s.output.push e.written } :=
      Stage.ext_world hw (Array.toList_inj.mp (by simpa using ho))
    rw [he]
    rfl

theorem gets_ofEval (r : Except EvalError α) :
    Gets (ofEval r) fun w a w' => r = .ok a ∧ w' = w := by
  intro s a s'
  cases r with
  | ok b =>
    constructor
    · rintro ⟨⟩
      exact ⟨⟨rfl, rfl⟩, rfl⟩
    · rintro ⟨⟨⟨⟩, hw⟩, ho⟩
      rw [Stage.ext_world hw ho]
      rfl
  | error e =>
    constructor
    · intro h
      cases h
    · rintro ⟨⟨⟨⟩, -⟩, -⟩

theorem gets_bindTargets (targets : List String) (unpacks : Bool) (item : Value) :
    Gets (bindTargets targets unpacks item) fun w _ w' =>
      ∃ bindings, loopBindings targets unpacks item = .ok bindings ∧
        w' = ⟨w.bindings.extend bindings, w.loader⟩ := by
  intro s a s'
  unfold bindTargets
  rw [bind_ok]
  constructor
  · rintro ⟨bindings, t, ht, ⟨⟩⟩
    obtain ⟨⟨hb, hw⟩, ho⟩ := (gets_ofEval _ s bindings t).mp ht
    rw [Stage.ext_world hw ho]
    exact ⟨⟨bindings, hb, rfl⟩, rfl⟩
  · rintro ⟨⟨bindings, hb, hw⟩, ho⟩
    refine ⟨bindings, s, (gets_ofEval _ s bindings s).mpr ⟨⟨hb, rfl⟩, rfl⟩, ?_⟩
    have he : s' = { s with bindings := s.bindings.extend bindings } := Stage.ext_world hw ho
    rw [he]
    rfl

theorem Tells.located {x : Rendering Unit} (h : Tells x R) (name : String) (line : Nat) :
    Tells (located name line x) R := by
  intro s s'
  rw [← h s s']
  unfold Rendering.located
  cases x s with
  | ok a t => rfl
  | error e t => cases e <;> simp

private theorem isolated_ok {x : Rendering Unit} {bindings : Dict Value} {s s' : Stage} :
    isolated bindings x s = .ok () s' ↔
      ∃ t, x { s with bindings } = .ok () t ∧ s' = { t with bindings := s.bindings } := by
  unfold isolated
  cases x { s with bindings } with
  | ok a t =>
    constructor
    · rintro ⟨⟩
      exact ⟨t, rfl, rfl⟩
    · rintro ⟨_, ⟨⟩, rfl⟩
      rfl
  | error e t => simp

private theorem captured_ok {x : Rendering Unit} {transform : String → String} {s s' : Stage} :
    captured transform x s = .ok () s' ↔ ∃ t, x { s with output := #[] } = .ok () t ∧
      s' = ⟨s.bindings, s.output.push (transform (String.join t.output.toList)), t.loader⟩ := by
  unfold captured
  cases x { s with output := #[] } with
  | ok a t =>
    constructor
    · rintro ⟨⟩
      exact ⟨t, rfl, rfl⟩
    · rintro ⟨_, ⟨⟩, rfl⟩
      rfl
  | error e t => simp

private theorem Tells.isolated {x : Rendering Unit} (h : Tells x R) (bindings : Dict Value) :
    Tells (isolated bindings x) fun w es w' =>
      ∃ w₁, R ⟨bindings, w.loader⟩ es w₁ ∧ w' = ⟨w.bindings, w₁.loader⟩ := by
  intro s s'
  rw [isolated_ok]
  constructor
  · rintro ⟨t, ht, rfl⟩
    obtain ⟨es, hR, ho⟩ := (h _ t).mp ht
    exact ⟨es, ⟨t.world, hR, rfl⟩, ho⟩
  · rintro ⟨es, ⟨w, hR, hw⟩, ho⟩
    exact ⟨⟨w.bindings, s'.output, w.loader⟩, (h _ _).mpr ⟨es, hR, ho⟩, Stage.ext_world hw rfl⟩

private theorem Tells.captured {x : Rendering Unit} (h : Tells x R) (transform : String → String) :
    Tells (captured transform x) fun w es w' =>
      ∃ inner w₁, R w inner w₁ ∧ w' = ⟨w.bindings, w₁.loader⟩ ∧
        es = [.transformed (transform (String.join (inner.map Event.written)))] := by
  intro s s'
  rw [captured_ok]
  constructor
  · rintro ⟨t, ht, rfl⟩
    obtain ⟨inner, hR, ho⟩ := (h _ t).mp ht
    refine ⟨_, ⟨inner, t.world, hR, rfl, rfl⟩, ?_⟩
    simp [ho, Event.written]
  · rintro ⟨_, ⟨inner, w, hR, hw, rfl⟩, ho⟩
    let t : Stage := ⟨w.bindings, (inner.map Event.written).toArray, w.loader⟩
    refine ⟨t, (h _ t).mpr ⟨inner, hR, by simp [t]⟩, Stage.ext_world hw ?_⟩
    exact Array.toList_inj.mp (by simpa [t, Event.written] using ho)

end Laws

end Rendering

open Rendering

/-- A setting for a template: it escapes as the template says, and what it inserts runs. -/
structure Setting.Serves (c : Setting) (depth : Nat) (t : Template) : Prop where
  escape : c.metadata.escape = t.metadata.escape
  insert : ∀ v, Tells (c.insert c.metadata v) (Runs c.host depth t c.metadata (.insertion v))

namespace Setting

variable {c : Setting} {depth : Nat} {t : Template}

theorem gets_value (c : Setting) (f : Formula) :
    Gets (c.value f) fun w v w' => w.Gives c.host c.metadata f v ∧ w' = w :=
  fun s v s' => gets_ofEval _ s v s'

private theorem Serves.escaped (h : c.Serves depth t) (v : Value) :
    c.escaped v = (Event.shown t v).written := by
  rw [Setting.escaped, h.escape]
  rfl

end Setting

private theorem tells_items {c : Setting} {depth : Nat} {t : Template} {body : Block}
    (h : Tells (runBlock c body) (Runs c.host depth t c.metadata (.block body)))
    (targets : List String) (unpacks : Bool) (items : List Value) :
    Tells (items.forM fun item => do bindTargets targets unpacks item; runBlock c body)
      (Runs c.host depth t c.metadata (.items targets unpacks items body)) := by
  induction items with
  | nil =>
    refine tells_pure.congr fun w es w' => ⟨?_, ?_⟩
    · rintro ⟨rfl, rfl⟩
      exact .noItems
    · rintro ⟨⟩
      exact ⟨rfl, rfl⟩
  | cons item items ih =>
    have hitem := Tells.bind (gets_bindTargets targets unpacks item) fun _ => h
    refine (hitem.seq ih).congr fun w es w' => ⟨?_, ?_⟩
    · rintro ⟨es, w₁, fs, ⟨-, _, ⟨bindings, hb, rfl⟩, hbody⟩, hrest, rfl⟩
      exact .item hb hbody hrest
    · intro h
      cases h with
      | item hb hbody hrest => exact ⟨_, _, _, ⟨(), _, ⟨_, hb, rfl⟩, hbody⟩, hrest, rfl⟩

private theorem runs_choice {host : Host} {depth : Nat} {t : Template} {m : Metadata Value}
    {clauses : List (Formula × Block)} {o : Option Block} {w w' : World} {es : List Event} :
    Runs host depth t m (.step (.choice clauses o)) w es w' ↔
      Runs host depth t m (.clauses clauses (o.getD [])) w es w' := by
  refine ⟨fun h => ?_, .choice⟩
  cases h with
  | choice hrun => exact hrun

mutual

theorem Step.tells_run {c : Setting} {depth : Nat} {t : Template} (hc : c.Serves depth t) :
    ∀ step : Step, step.outputs ⊆ blockOutputs t.body →
      Tells (step.run c) (Runs c.host depth t c.metadata (.step step))
  | .text content, _ => by
    refine (tells_write (.text content)).congr fun w es w' => ⟨?_, ?_⟩
    · rintro ⟨rfl, rfl⟩
      exact .text
    · rintro ⟨⟩
      exact ⟨rfl, rfl⟩
  | .output f, hf => by
    have hwrite : ∀ v, Tells (write (c.escaped v)) fun w es w' => es = [.shown t v] ∧ w' = w := by
      intro v
      rw [hc.escaped]
      exact tells_write (.shown t v)
    refine (Tells.bind (c.gets_value f) hwrite).congr fun w es w' => ⟨?_, ?_⟩
    · rintro ⟨v, _, ⟨hv, rfl⟩, rfl, rfl⟩
      exact .output (hf List.mem_cons_self) hv
    · intro h
      cases h with
      | output _ hv => exact ⟨_, _, ⟨hv, rfl⟩, rfl, rfl⟩
  | .choice clauses none, hf => by
    have hnone : Tells (pure ()) (Runs c.host depth t c.metadata (.block [])) :=
      tells_runBlock hc [] (List.nil_subset _)
    exact (tells_runClauses hc hnone clauses hf).congr fun _ _ _ => (runs_choice (o := none)).symm
  | .choice clauses (some body), hf => by
    obtain ⟨hclauses, hbody⟩ := List.append_subset.mp hf
    have hlast := tells_runBlock hc body hbody
    exact (tells_runClauses hc hlast clauses hclauses).congr fun _ _ _ =>
      (runs_choice (o := some body)).symm
  | .loop targets unpacks f body, hf => by
    have hitems := tells_items (tells_runBlock hc body hf) targets unpacks
    have hloop := fun v : Value => Tells.bind (gets_ofEval v.iterate) hitems
    refine (Tells.bind (c.gets_value f) hloop).congr fun w es w' => ⟨?_, ?_⟩
    · rintro ⟨v, _, ⟨hv, rfl⟩, items, _, ⟨hi, rfl⟩, hrun⟩
      exact .loop hv hi hrun
    · intro h
      cases h with
      | loop hv hi hrun => exact ⟨_, _, ⟨hv, rfl⟩, _, _, ⟨hi, rfl⟩, hrun⟩
  | .insertion f, _ => by
    refine (Tells.bind (c.gets_value f) hc.insert).congr fun w es w' => ⟨?_, ?_⟩
    · rintro ⟨v, _, ⟨hv, rfl⟩, hrun⟩
      exact .insertion hv hrun
    · intro h
      cases h with
      | insertion hv hrun => exact ⟨_, _, ⟨hv, rfl⟩, hrun⟩
  | .captured tag transform body, hf => by
    have hbody := tells_runBlock hc body hf
    refine (hbody.captured transform).congr fun w es w' => ⟨?_, ?_⟩
    · rintro ⟨inner, w₁, hrun, rfl, rfl⟩
      exact .captured hrun
    · intro h
      cases h with
      | captured hrun => exact ⟨_, _, hrun, rfl, rfl⟩

private theorem tells_runClauses {c : Setting} {depth : Nat} {t : Template} (hc : c.Serves depth t)
    {fallback : Rendering Unit} {last : Block}
    (hlast : Tells fallback (Runs c.host depth t c.metadata (.block last))) :
    ∀ clauses : List (Formula × List (Located Step)),
      clausesOutputs clauses ⊆ blockOutputs t.body → Tells (runClauses c fallback clauses)
        (Runs c.host depth t c.metadata (.clauses clauses last))
  | [], _ => by
    refine hlast.congr fun w es w' => ⟨.fallback, fun h => ?_⟩
    cases h with
    | fallback hrun => exact hrun
  | (f, body) :: rest, hf => by
    obtain ⟨hbody, hrest⟩ := List.append_subset.mp hf
    have hrun := tells_runBlock hc body hbody
    have hmore := tells_runClauses hc hlast rest hrest
    have hpick : ∀ v : Value, Tells (if v.truthy then runBlock c body
        else runClauses c fallback rest) fun w es w' =>
          (v.truthy = true ∧ Runs c.host depth t c.metadata (.block body) w es w') ∨
            (v.truthy = false ∧ Runs c.host depth t c.metadata (.clauses rest last) w es w') := by
      intro v
      cases v.truthy with
      | true => simpa using hrun
      | false => simpa using hmore
    refine (Tells.bind (c.gets_value f) hpick).congr fun w es w' => ⟨?_, ?_⟩
    · rintro ⟨v, _, ⟨hv, rfl⟩, ⟨ht, hrun⟩ | ⟨ht, hrun⟩⟩
      · exact .holds hv ht hrun
      · exact .fails hv ht hrun
    · intro h
      cases h with
      | holds hv ht hrun => exact ⟨_, _, ⟨hv, rfl⟩, .inl ⟨ht, hrun⟩⟩
      | fails hv ht hrun => exact ⟨_, _, ⟨hv, rfl⟩, .inr ⟨ht, hrun⟩⟩

theorem tells_runBlock {c : Setting} {depth : Nat} {t : Template} (hc : c.Serves depth t) :
    ∀ body : List (Located Step), blockOutputs body ⊆ blockOutputs t.body →
      Tells (runBlock c body) (Runs c.host depth t c.metadata (.block body))
  | [], _ => by
    refine tells_pure.congr fun w es w' => ⟨?_, ?_⟩
    · rintro ⟨rfl, rfl⟩
      exact .nothing
    · rintro ⟨⟩
      exact ⟨rfl, rfl⟩
  | ⟨line, step⟩ :: rest, hf => by
    obtain ⟨hstep, hrest⟩ := List.append_subset.mp hf
    have hfirst := (Step.tells_run hc step hstep).located c.name line
    refine (hfirst.seq (tells_runBlock hc rest hrest)).congr fun w es w' => ⟨?_, ?_⟩
    · rintro ⟨es, w₁, fs, hrun, hmore, rfl⟩
      exact .next hrun hmore
    · intro h
      cases h with
      | next hrun hmore => exact ⟨_, _, _, hrun, hmore, rfl⟩

end

private theorem gets_loadNamed (m : Metadata Value) (name : String) :
    Gets (loadNamed m name) (Finds m (.text name)) := by
  rintro ⟨b, output, loader⟩ u s'
  constructor
  · intro h
    unfold loadNamed at h
    cases loader with
    | none => cases h
    | some l =>
      by_cases hm : m.loader = some l.number
      · rcases hl : l.load name with ⟨r, l'⟩
        simp only [if_pos hm, hl] at h
        cases r with
        | ok t =>
          cases h
          exact ⟨.name hm hl, rfl⟩
        | error e => cases h
      · simp only [if_neg hm] at h
        cases h
  · rintro ⟨hfind, ho⟩
    generalize hw : s'.world = w at hfind
    change Finds m (.text name) ⟨b, loader⟩ u w at hfind
    cases hfind with
    | @name _ _ l l' _ hm hl =>
      have he : s' = ⟨b, output, some l'⟩ := Stage.ext_world hw ho
      rw [he]
      unfold loadNamed
      simp only [if_pos hm, hl]

theorem gets_insertedTemplate (m : Metadata Value) (v : Value) :
    Gets (insertedTemplate m v) (Finds m v) := by
  intro s u s'
  cases v with
  | template t =>
    constructor
    · rintro ⟨⟩
      exact ⟨.template u s.world, rfl⟩
    · rintro ⟨hfind, ho⟩
      generalize hw : s'.world = w at hfind
      cases hfind
      rw [Stage.ext_world hw ho]
      rfl
  | text name => exact gets_loadNamed m name s u s'
  | _ =>
    constructor
    · intro h
      cases h
    · rintro ⟨⟨⟩, -⟩

private theorem Compiled.tells_runIn {host : Host}
    {insert : Metadata Value → Value → Rendering Unit} {depth : Nat} {t : Template} (scope : Scope)
    (h : Setting.Serves ⟨t.name, scope.metadata, host, insert⟩ depth t) :
    Tells (t.runIn host insert scope) fun w es w' =>
      ∃ w₁, Runs host depth t scope.metadata (.block t.body) ⟨scope.bindings, w.loader⟩ es w₁ ∧
        w' = ⟨w.bindings, w₁.loader⟩ :=
  (tells_runBlock h t.body (List.Subset.refl _)).isolated scope.bindings

theorem tells_insertAt (host : Host) (depth : Nat) (t : Template) (m : Metadata Value) (v : Value) :
    Tells (insertAt host depth m v) (Runs host depth t m (.insertion v)) := by
  induction depth generalizing t m v with
  | zero =>
    intro s s'
    constructor
    · intro h
      cases h
    · rintro ⟨es, ⟨⟩, -⟩
  | succ depth ih =>
    have hrun : ∀ u : Template, Tells (u.runInserted host (insertAt host depth) m none)
        fun w es w' => ∃ w₁, Runs host depth u (Scope.inserted ⟨w.bindings, m⟩ u none).metadata
          (.block u.body) ⟨(Scope.inserted ⟨w.bindings, m⟩ u none).bindings, w.loader⟩ es w₁ ∧
            w' = ⟨w.bindings, w₁.loader⟩ := by
      intro u s s'
      -- The metadata of the inserted template lies on top, so its own escape is in force.
      have hserves : Setting.Serves ⟨u.name, (Scope.inserted ⟨s.bindings, m⟩ u none).metadata, host,
          insertAt host depth⟩ depth u := ⟨rfl, fun v => ih u _ v⟩
      exact Compiled.tells_runIn _ hserves s s'
    refine (Tells.bind (gets_insertedTemplate m v) hrun).congr fun w es w' => ⟨?_, ?_⟩
    · rintro ⟨u, w₁, hfind, w₂, hrun, rfl⟩
      exact .inserted hfind hrun
    · intro h
      cases h with
      | inserted hfind hrun => exact ⟨_, _, hfind, _, hrun, rfl⟩

namespace Compiled

variable {host : Host} {depth : Nat} {t : Template} {params : Dict Value}
  {loader left : Option Loader} {text : String}

private theorem render_eq_output : t.render host depth params loader = (.output text, left) ↔
    ∃ s, t.runIn host (insertAt host depth) (.ofTemplate t params) ⟨[], #[], loader⟩ = .ok () s ∧
      s.loader = left ∧ text = String.join s.output.toList := by
  unfold render
  cases t.runIn host (insertAt host depth) (.ofTemplate t params) ⟨[], #[], loader⟩ with
  | ok a s =>
    constructor
    · rintro ⟨⟩
      exact ⟨s, rfl, rfl, rfl⟩
    · rintro ⟨_, ⟨⟩, rfl, rfl⟩
      rfl
  | error e s => cases e <;> simp

private theorem render_runs : t.render host depth params loader = (.output text, left) ↔
    ∃ es w, Runs host depth t t.metadata (.block t.body)
        ⟨Dict.extend t.defaults params, loader⟩ es w ∧
      w.loader = left ∧ text = String.join (es.map Event.written) := by
  have hserves : Setting.Serves ⟨t.name, t.metadata, host, insertAt host depth⟩ depth t :=
    ⟨rfl, fun v => tells_insertAt host depth t _ v⟩
  have hrun := tells_runIn (.ofTemplate t params) hserves ⟨[], #[], loader⟩
  rw [render_eq_output]
  constructor
  · rintro ⟨s, hs, rfl, rfl⟩
    obtain ⟨es, ⟨w, hw, he⟩, ho⟩ := (hrun s).mp hs
    refine ⟨es, w, hw, (congrArg World.loader he).symm, ?_⟩
    rw [ho]
    rfl
  · rintro ⟨es, w, hw, rfl, rfl⟩
    let s : Stage := ⟨[], (es.map Event.written).toArray, w.loader⟩
    exact ⟨s, (hrun s).mpr ⟨es, ⟨w, hw, rfl⟩, rfl⟩, rfl, rfl⟩

end Compiled

/-- A render gives an output just if the template, or the one of a name, runs through events that
write it: texts as they stand, and the values of tags as the template that holds the tag escapes
them, whatever templates are around it and whatever was inserted before. -/
theorem render_output_iff (host : Host) (depth : Nat) (params : Dict Value) (text : String)
    (left : Option Loader) :
    (∀ (t : Template) (loader : Option Loader),
      t.render host depth params loader = (.output text, left) ↔
        ∃ es w, Runs host depth t t.metadata (.block t.body)
            ⟨Dict.extend t.defaults params, loader⟩ es w ∧
          w.loader = left ∧ text = String.join (es.map Event.written)) ∧
    ∀ (l : Loader) (name : String),
      l.render host depth name params = (.output text, left) ↔
        ∃ t l' es w, l.load name = (.ok t, l') ∧
          Runs host depth t t.metadata (.block t.body)
            ⟨Dict.extend t.defaults params, some l'⟩ es w ∧
          w.loader = left ∧ text = String.join (es.map Event.written) := by
  refine ⟨fun t loader => Compiled.render_runs, fun l name => ?_⟩
  unfold Loader.render
  rcases l.load name with ⟨_ | t, l'⟩
  · simp
  · dsimp only
    rw [Compiled.render_runs]
    constructor
    · rintro ⟨es, w, h⟩
      exact ⟨t, l', es, w, rfl, h⟩
    · rintro ⟨_, _, es, w, ⟨⟩, h⟩
      exact ⟨es, w, h⟩

example :
    let lt : Step := .output ⟨"'<'", .literal (.text "<")⟩
    let inner : Template := ⟨[⟨1, lt⟩], [], .named "inner", 0⟩
    let outer : Template := ⟨[⟨1, lt⟩, ⟨1, .insertion ⟨"t", .name "t"⟩⟩, ⟨1, lt⟩], [],
      ⟨"outer", some Escape.html, none, []⟩, 1⟩
    (outer.render (fun _ _ => .error .overflow) 1 [("t", .template inner)] none).1 =
      .output "&lt;<&lt;" := by
  rfl

end Stencil
