import Stencil.Proofs.Render.Trace

/-!
# Where a render stands

An execution comes to segments and enters the blocks and templates inside them, until some segment
raises a fault of its own: that one is the innermost segment being executed.
-/

namespace Stencil

/-- Where an execution stands: how deep insertions may still go, the template whose source is
executed, the metadata in force and the world. -/
structure Spot where
  depth : Nat
  holder : Template
  metadata : Metadata Value
  world : World

mutual

def Step.segments : Step → List Segment
  | .text _ => []
  | .output _ => []
  | .choice clauses none => clausesSegments clauses
  | .choice clauses (some body) => clausesSegments clauses ++ blockSegments body
  | .loop _ _ _ body => blockSegments body
  | .insertion _ => []
  | .captured _ _ body => blockSegments body

def clausesSegments : List (Formula × List (Located Step)) → List Segment
  | [] => []
  | (_, body) :: rest => blockSegments body ++ clausesSegments rest

def blockSegments : List (Located Step) → List Segment
  | [] => []
  | ⟨line, step⟩ :: rest => ⟨line, step⟩ :: (step.segments ++ blockSegments rest)

end

inductive Misses (m : Metadata Value) : Value → World → TemplateError → Prop where
  | kind {v : Value} {w : World} : (∀ t, v ≠ .template t) → (∀ name, v ≠ .text name) →
      Misses m v w (.eval (.type ("Expected a Template or a str, can not be " ++ v.typeName)))
  | detached {name : String} {w : World} : (∀ l, w.loader = some l → m.loader ≠ some l.number) →
      Misses m (.text name) w (.eval (.value ("Cannot load '" ++ name ++ "' by name")))
  | unloaded {name : String} {w : World} {l l' : Loader} {e : TemplateError} :
      w.loader = some l → m.loader = some l.number → l.load name = (.error e, l') →
      Misses m (.text name) w e

namespace Spot

def Gives (host : Host) (p : Spot) (f : Formula) (v : Value) : Prop :=
  p.world.Gives host p.metadata f v

def Faults (host : Host) (p : Spot) (f : Formula) (e : EvalError) : Prop :=
  f.tree.eval ⟨Scope.lookup ⟨p.world.bindings, p.metadata⟩, host⟩ = .error e

def Skips (host : Host) (p : Spot) (clauses : List (Formula × Block)) : Prop :=
  ∀ clause ∈ clauses, ∃ v, p.Gives host clause.1 v ∧ v.truthy = false

def Passes (host : Host) (p : Spot) (task : Task) (w : World) : Prop :=
  ∃ es, Runs host p.depth p.holder p.metadata task p.world es w

def inserted (depth : Nat) (m : Metadata Value) (u : Template) (w : World) : Spot :=
  ⟨depth, u, (Scope.inserted ⟨w.bindings, m⟩ u none).metadata,
    ⟨(Scope.inserted ⟨w.bindings, m⟩ u none).bindings, w.loader⟩⟩

end Spot

/-- Executing a step, a block inside it or the template it inserts is entered. -/
inductive Enters (host : Host) (p : Spot) : Step → Spot → Block → Prop where
  | clause {clauses done f body rest last v} : clauses = done ++ (f, body) :: rest →
      p.Skips host done → p.Gives host f v → v.truthy = true →
      Enters host p (.choice clauses last) p body
  | last {clauses body} : p.Skips host clauses → Enters host p (.choice clauses (some body)) p body
  | item {targets unpacks f body v done item rest w bindings} : p.Gives host f v →
      v.iterate = .ok (done ++ item :: rest) →
      p.Passes host (.items targets unpacks done body) w →
      loopBindings targets unpacks item = .ok bindings →
      Enters host p (.loop targets unpacks f body)
        { p with world := ⟨w.bindings.extend bindings, w.loader⟩ } body
  | captured {tag transform body} : Enters host p (.captured tag transform body) p body
  | insertion {depth f v u w} : p.depth = depth + 1 → p.Gives host f v →
      Finds p.metadata v p.world u w →
      Enters host p (.insertion f) (.inserted depth p.metadata u w) u.body

/-- Executing a step, a fault arises in the step itself and not in a block inside it. -/
inductive Raises (host : Host) (p : Spot) : Step → TemplateError → Prop where
  | output {f e} : p.Faults host f e → Raises host p (.output f) (.eval e)
  | condition {clauses done f body rest last e} : clauses = done ++ (f, body) :: rest →
      p.Skips host done → p.Faults host f e → Raises host p (.choice clauses last) (.eval e)
  | items {targets unpacks f body e} : p.Faults host f e →
      Raises host p (.loop targets unpacks f body) (.eval e)
  | iterate {targets unpacks f body v e} : p.Gives host f v → v.iterate = .error e →
      Raises host p (.loop targets unpacks f body) (.eval e)
  | binding {targets unpacks f body v done item rest w e} : p.Gives host f v →
      v.iterate = .ok (done ++ item :: rest) →
      p.Passes host (.items targets unpacks done body) w →
      loopBindings targets unpacks item = .error e →
      Raises host p (.loop targets unpacks f body) (.eval e)
  | target {f e} : p.Faults host f e → Raises host p (.insertion f) (.eval e)
  | template {depth f v e} : p.depth = depth + 1 → p.Gives host f v →
      Misses p.metadata v p.world e → Raises host p (.insertion f) e

def Comes (host : Host) (p : Spot) (body : Block) (s : Segment) (w : World) : Prop :=
  ∃ done rest, body = done ++ s :: rest ∧ p.Passes host (.block done) w

/-- Executing a block comes to a segment, its own or one of a block or template entered. -/
inductive Reaches (host : Host) : Spot → Block → Spot → Segment → Prop where
  | here {p body s w} : Comes host p body s w → Reaches host p body { p with world := w } s
  | inside {p body s w q inner r t} : Comes host p body s w →
      Enters host { p with world := w } s.item q inner → Reaches host q inner r t →
      Reaches host p body r t

/-- The error of a block: the fault of the segment that raises it, with the name of the template
that holds the segment and the segment's line. -/
def BlockFails (host : Host) (p : Spot) (body : Block) (e : TemplateError) : Prop :=
  ∃ q s fault, Reaches host p body q s ∧ Raises host q s.item fault ∧
    e = .render fault.display q.holder.name s.line

def StepFails (host : Host) (p : Spot) (step : Step) (e : TemplateError) : Prop :=
  Raises host p step e ∨ ∃ q body, Enters host p step q body ∧ BlockFails host q body e

namespace TemplateError

/-- Not yet attributed to a line of a render. -/
def Raw (e : TemplateError) : Prop :=
  ∀ message name line, e ≠ .render message name line

private theorem Raw.atRender {e : TemplateError} (h : e.Raw) (name : String) (line : Nat) :
    e.atRender name line = .render e.display name line := by
  cases e with
  | render message name' line' => exact absurd rfl (h message name' line')
  | _ => rfl

end TemplateError

private theorem Source.raw_load {s : Source} {name : String} {e : TemplateError}
    (h : s.load name = .error e) : e.Raw := by
  intro message name' line he
  subst he
  cases s with
  | memory texts => simp [Source.load] at h
  | directory disk root =>
    rw [Source.load] at h
    unfold Source.readBelow at h
    repeat' split at h
    all_goals simp at h

private theorem Source.raw_firstText {sources : List Source} {name : String} {e : TemplateError}
    (h : Source.firstText name sources = .error e) : e.Raw := by
  induction sources with
  | nil => simp [Source.firstText] at h
  | cons s rest ih =>
    rw [Source.firstText] at h
    cases hs : s.load name with
    | error fault =>
      rw [hs] at h
      have he : fault = e := by simpa using h
      rw [← he]
      exact Source.raw_load hs
    | ok found =>
      rw [hs] at h
      cases found with
      | none => exact ih h
      | some text => simp at h

private theorem Dialect.raw_compile {d : Dialect} {source name : String} {defaults : Dict Value}
    {m : Metadata Value} {serial : Nat} {e : TemplateError}
    (h : d.compile source name defaults m serial = .error e) : e.Raw := by
  intro message name' line he
  subst he
  unfold Dialect.compile Dialect.assemble at h
  cases ha : Assembly.ofTokens d.builtins d.custom (d.tokens source) with
  | ok body => simp [ha, bind, Except.bind, pure, Except.pure] at h
  | error fault =>
    simp [ha, bind, Except.bind, TemplateError.atCompile, TemplateError.withSource] at h

private theorem Loader.raw_load {l l' : Loader} {name : String} {e : TemplateError}
    (h : l.load name = (.error e, l')) : e.Raw := by
  cases hc : (l.cache.get? name).1 with
  | some t => simp [Loader.load_cached hc] at h
  | none =>
    rw [Loader.load_missed hc] at h
    simp only [Loader.loadFresh] at h
    cases hf : Source.firstText name l.sources with
    | error fault =>
      rw [hf] at h
      have he : fault = e := by simpa using congrArg Prod.fst h
      rw [← he]
      exact Source.raw_firstText hf
    | ok text =>
      rw [hf] at h
      cases text with
      | none =>
        have he : .notFound name = e := by simpa using congrArg Prod.fst h
        rw [← he]
        intro message name' line
        simp
      | some text =>
        simp only [Loader.compile] at h
        cases hc : l.dialect.compile text name [] (l.attach (.named "")) l.nextSerial with
        | ok t => simp [hc] at h
        | error fault =>
          rw [hc] at h
          have he : fault = e := by simpa using congrArg Prod.fst h
          rw [← he]
          exact Dialect.raw_compile hc

theorem Raises.raw {host : Host} {p : Spot} {step : Step} {e : TemplateError}
    (h : Raises host p step e) : e.Raw := by
  intro message name line he
  subst he
  cases h with
  | template _ _ hm =>
    cases hm with
    | unloaded _ _ hl => exact Loader.raw_load hl message name line rfl

section Segments

variable {host : Host} {p q : Spot} {body : Block} {s : Segment}

private theorem mem_clausesSegments {f : Formula} {clauses : List (Formula × Block)}
    (hc : (f, body) ∈ clauses) (hs : s ∈ blockSegments body) : s ∈ clausesSegments clauses := by
  induction clauses with
  | nil => simp at hc
  | cons clause rest ih =>
    rw [clausesSegments]
    rcases List.mem_cons.mp hc with hfirst | hrest
    · rw [← hfirst]
      exact List.mem_append_left _ hs
    · exact List.mem_append_right _ (ih hrest)

private theorem mem_blockSegments {line : Nat} {step : Step} (hm : ⟨line, step⟩ ∈ body)
    (hs : s = ⟨line, step⟩ ∨ s ∈ step.segments) : s ∈ blockSegments body := by
  induction body with
  | nil => simp at hm
  | cons first rest ih =>
    rw [blockSegments]
    rcases List.mem_cons.mp hm with hfirst | hrest
    · rw [← hfirst]
      rcases hs with rfl | hinner
      · exact List.mem_cons_self
      · exact List.mem_cons_of_mem _ (List.mem_append_left _ hinner)
    · exact List.mem_cons_of_mem _ (List.mem_append_right _ (ih hrest))

theorem Enters.segments {step : Step} (h : Enters host p step q body) :
    (q.holder = p.holder ∧ blockSegments body ⊆ step.segments) ∨ body = q.holder.body := by
  cases h with
  | @clause clauses done f body rest last v hc _ _ _ =>
    have hm : (f, body) ∈ clauses := by simp [hc]
    refine .inl ⟨rfl, fun s hs => ?_⟩
    cases last with
    | none => exact mem_clausesSegments hm hs
    | some last => exact List.mem_append_left _ (mem_clausesSegments hm hs)
  | last _ => exact .inl ⟨rfl, fun s hs => List.mem_append_right _ hs⟩
  | item _ _ _ _ => exact .inl ⟨rfl, List.Subset.refl _⟩
  | captured => exact .inl ⟨rfl, List.Subset.refl _⟩
  | insertion _ _ _ => exact .inr rfl

private theorem Comes.mem {w : World} (h : Comes host p body s w) : s ∈ body := by
  obtain ⟨done, rest, rfl, -⟩ := h
  simp

/-- A segment that is reached stands in the source of the template said to hold it. -/
theorem Reaches.mem_holder (h : Reaches host p body q s)
    (hb : blockSegments body ⊆ blockSegments p.holder.body) :
    s ∈ blockSegments q.holder.body := by
  induction h with
  | here hc => exact hb (mem_blockSegments hc.mem (.inl rfl))
  | inside hc he _ ih =>
    apply ih
    rcases he.segments with ⟨hholder, hsub⟩ | rfl
    · rw [hholder]
      intro t ht
      exact hb (mem_blockSegments hc.mem (.inr (hsub ht)))
    · exact List.Subset.refl _

end Segments

section Blocks

variable {host : Host} {p : Spot}

private theorem comes_cons {line : Nat} {step : Step} {rest : Block} {s : Segment} {w : World} :
    Comes host p (⟨line, step⟩ :: rest) s w ↔ (s = ⟨line, step⟩ ∧ w = p.world) ∨
      ∃ w₁, p.Passes host (.step step) w₁ ∧ Comes host { p with world := w₁ } rest s w := by
  obtain ⟨depth, holder, m, world⟩ := p
  constructor
  · rintro ⟨done, after, hbody, es, hrun⟩
    cases done with
    | nil =>
      obtain ⟨rfl, rfl⟩ := List.cons.inj hbody
      cases hrun
      exact .inl ⟨rfl, rfl⟩
    | cons first done =>
      obtain ⟨rfl, rfl⟩ := List.cons.inj hbody
      cases hrun with
      | next hstep hdone => exact .inr ⟨_, ⟨_, hstep⟩, done, after, rfl, _, hdone⟩
  · rintro (⟨rfl, rfl⟩ | ⟨w₁, ⟨es, hstep⟩, done, after, rfl, fs, hdone⟩)
    · exact ⟨[], rest, rfl, [], .nothing⟩
    · exact ⟨⟨line, step⟩ :: done, after, rfl, es ++ fs, .next hstep hdone⟩

private theorem blockFails_iff {body : Block} {e : TemplateError} :
    BlockFails host p body e ↔ ∃ s w, Comes host p body s w ∧
      ∃ fault, StepFails host { p with world := w } s.item fault ∧
        e = fault.atRender p.holder.name s.line := by
  constructor
  · rintro ⟨q, s, fault, hreach, hraise, rfl⟩
    cases hreach with
    | @here _ _ _ w hcomes =>
      exact ⟨s, w, hcomes, fault, .inl hraise, (hraise.raw.atRender _ _).symm⟩
    | inside hcomes henter hreach =>
      exact ⟨_, _, hcomes, _, .inr ⟨_, _, henter, q, s, fault, hreach, hraise, rfl⟩, rfl⟩
  · rintro ⟨s, w, hcomes, fault, hraise | ⟨q, inner, henter, r, t, cause, hreach, hraise, rfl⟩, rfl⟩
    · exact ⟨_, s, fault, .here hcomes, hraise, hraise.raw.atRender _ _⟩
    · exact ⟨r, t, cause, .inside hcomes henter hreach, hraise, rfl⟩

theorem blockFails_nil {e : TemplateError} : ¬ BlockFails host p [] e := by
  rw [blockFails_iff]
  rintro ⟨s, w, ⟨done, rest, hbody, -⟩, -⟩
  simp at hbody

theorem blockFails_cons {line : Nat} {step : Step} {rest : Block} {e : TemplateError} :
    BlockFails host p (⟨line, step⟩ :: rest) e ↔
      (∃ fault, StepFails host p step fault ∧ e = fault.atRender p.holder.name line) ∨
        ∃ w, p.Passes host (.step step) w ∧ BlockFails host { p with world := w } rest e := by
  simp only [blockFails_iff, comes_cons]
  constructor
  · rintro ⟨s, w, ⟨rfl, rfl⟩ | ⟨w₁, hstep, hcomes⟩, hfail⟩
    · exact .inl hfail
    · exact .inr ⟨w₁, hstep, s, w, hcomes, hfail⟩
  · rintro (hfail | ⟨w₁, hstep, s, w, hcomes, hfail⟩)
    · exact ⟨_, _, .inl ⟨rfl, rfl⟩, hfail⟩
    · exact ⟨s, w, .inr ⟨w₁, hstep, hcomes⟩, hfail⟩

theorem stepFails_output {f : Formula} {e : TemplateError} :
    StepFails host p (.output f) e ↔ ∃ fault, p.Faults host f fault ∧ e = .eval fault := by
  constructor
  · rintro (hraise | ⟨q, body, henter, -⟩)
    · cases hraise with
      | output hf => exact ⟨_, hf, rfl⟩
    · cases henter
  · rintro ⟨fault, hf, rfl⟩
    exact .inl (.output hf)

theorem stepFails_captured {tag : String} {transform : String → String} {body : Block}
    {e : TemplateError} : StepFails host p (.captured tag transform body) e ↔
      BlockFails host p body e := by
  constructor
  · rintro (hraise | ⟨q, inner, henter, hfail⟩)
    · cases hraise
    · cases henter
      exact hfail
  · intro hfail
    exact .inr ⟨p, body, .captured, hfail⟩

theorem stepFails_choice_nil {last : Option Block} {e : TemplateError} :
    StepFails host p (.choice [] last) e ↔ ∃ body, last = some body ∧ BlockFails host p body e := by
  constructor
  · rintro (hraise | ⟨q, body, henter, hfail⟩)
    · cases hraise with
      | condition hc => simp at hc
    · cases henter with
      | clause hc => simp at hc
      | last _ => exact ⟨body, rfl, hfail⟩
  · rintro ⟨body, rfl, hfail⟩
    have hskips : p.Skips host [] := by simp [Spot.Skips]
    exact .inr ⟨p, body, .last hskips, hfail⟩

private theorem skips_cons {f : Formula} {body : Block} {rest : List (Formula × Block)} :
    p.Skips host ((f, body) :: rest) ↔
      (∃ v, p.Gives host f v ∧ v.truthy = false) ∧ p.Skips host rest := by
  simp [Spot.Skips]

theorem stepFails_choice_cons {f : Formula} {body : Block} {rest : List (Formula × Block)}
    {last : Option Block} {e : TemplateError} :
    StepFails host p (.choice ((f, body) :: rest) last) e ↔
      (∃ fault, p.Faults host f fault ∧ e = .eval fault) ∨
        ∃ v, p.Gives host f v ∧ (v.truthy = true ∧ BlockFails host p body e ∨
          v.truthy = false ∧ StepFails host p (.choice rest last) e) := by
  constructor
  · rintro (hraise | ⟨q, inner, henter, hfail⟩)
    · cases hraise with
      | @condition _ done _ _ _ _ fault hc hskips hfault =>
        cases done with
        | nil =>
          obtain ⟨⟨⟩, rfl⟩ := List.cons.inj hc
          exact .inl ⟨fault, hfault, rfl⟩
        | cons clause done =>
          obtain ⟨rfl, rfl⟩ := List.cons.inj hc
          obtain ⟨⟨v, hv, ht⟩, hskips⟩ := skips_cons.mp hskips
          exact .inr ⟨v, hv, .inr ⟨ht, .inl (.condition rfl hskips hfault)⟩⟩
    · cases henter with
      | @clause _ done _ _ _ _ v hc hskips hv ht =>
        cases done with
        | nil =>
          obtain ⟨⟨⟩, rfl⟩ := List.cons.inj hc
          exact .inr ⟨v, hv, .inl ⟨ht, hfail⟩⟩
        | cons clause done =>
          obtain ⟨rfl, rfl⟩ := List.cons.inj hc
          obtain ⟨⟨u, hu, hfalse⟩, hskips⟩ := skips_cons.mp hskips
          exact .inr ⟨u, hu, .inr ⟨hfalse, .inr ⟨p, inner, .clause rfl hskips hv ht, hfail⟩⟩⟩
      | last hskips =>
        obtain ⟨⟨u, hu, hfalse⟩, hskips⟩ := skips_cons.mp hskips
        exact .inr ⟨u, hu, .inr ⟨hfalse, .inr ⟨p, inner, .last hskips, hfail⟩⟩⟩
  · have hempty : p.Skips host [] := by simp [Spot.Skips]
    rintro (⟨fault, hfault, rfl⟩ | ⟨v, hv, ⟨ht, hfail⟩ | ⟨hfalse, hrest⟩⟩)
    · exact .inl (.condition (List.nil_append _).symm hempty hfault)
    · exact .inr ⟨p, body, .clause (List.nil_append _).symm hempty hv ht, hfail⟩
    · have hfirst : ∃ v, p.Gives host f v ∧ v.truthy = false := ⟨v, hv, hfalse⟩
      rcases hrest with hraise | ⟨q, inner, henter, hfail⟩
      · cases hraise with
        | condition hc hskips hfault =>
          rw [hc]
          refine .inl (.condition (List.cons_append ..).symm ?_ hfault)
          exact skips_cons.mpr ⟨hfirst, hskips⟩
      · refine .inr ⟨q, inner, ?_, hfail⟩
        cases henter with
        | clause hc hskips hv ht =>
          rw [hc]
          exact .clause (List.cons_append ..).symm (skips_cons.mpr ⟨hfirst, hskips⟩) hv ht
        | last hskips => exact .last (skips_cons.mpr ⟨hfirst, hskips⟩)

/-- A loop over items stops at one of them, at its bindings or in the body. -/
def ItemsFail (host : Host) (p : Spot) (targets : List String) (unpacks : Bool)
    (items : List Value) (body : Block) (e : TemplateError) : Prop :=
  ∃ done item rest w, items = done ++ item :: rest ∧
    p.Passes host (.items targets unpacks done body) w ∧
    ((∃ fault, loopBindings targets unpacks item = .error fault ∧ e = .eval fault) ∨
      ∃ bindings, loopBindings targets unpacks item = .ok bindings ∧
        BlockFails host { p with world := ⟨w.bindings.extend bindings, w.loader⟩ } body e)

theorem itemsFail_cons {targets : List String} {unpacks : Bool} {item : Value}
    {items : List Value} {body : Block} {e : TemplateError} :
    ItemsFail host p targets unpacks (item :: items) body e ↔
      (∃ fault, loopBindings targets unpacks item = .error fault ∧ e = .eval fault) ∨
        ∃ bindings, loopBindings targets unpacks item = .ok bindings ∧
          (BlockFails host
              { p with world := ⟨p.world.bindings.extend bindings, p.world.loader⟩ } body e ∨
            ∃ w, Spot.Passes host
                { p with world := ⟨p.world.bindings.extend bindings, p.world.loader⟩ }
                (.block body) w ∧
              ItemsFail host { p with world := w } targets unpacks items body e) := by
  obtain ⟨depth, holder, m, world⟩ := p
  constructor
  · rintro ⟨done, first, rest, w, hitems, ⟨es, hrun⟩, hstop⟩
    cases done with
    | nil =>
      obtain ⟨rfl, rfl⟩ := List.cons.inj hitems
      cases hrun
      rcases hstop with hfault | ⟨bindings, hb, hfail⟩
      · exact .inl hfault
      · exact .inr ⟨bindings, hb, .inl hfail⟩
    | cons _ done =>
      obtain ⟨rfl, rfl⟩ := List.cons.inj hitems
      cases hrun with
      | item hb hbody hdone =>
        exact .inr ⟨_, hb, .inr ⟨_, ⟨_, hbody⟩, done, first, rest, w, rfl, ⟨_, hdone⟩, hstop⟩⟩
  · rintro (hfault | ⟨bindings, hb, hfail | ⟨w₁, ⟨es, hbody⟩, done, first, rest, w, rfl,
      ⟨fs, hdone⟩, hstop⟩⟩)
    · exact ⟨[], item, items, world, rfl, ⟨[], .noItems⟩, .inl hfault⟩
    · exact ⟨[], item, items, world, rfl, ⟨[], .noItems⟩, .inr ⟨bindings, hb, hfail⟩⟩
    · exact ⟨item :: done, first, rest, w, rfl, ⟨es ++ fs, .item hb hbody hdone⟩, hstop⟩

theorem stepFails_loop {targets : List String} {unpacks : Bool} {f : Formula} {body : Block}
    {e : TemplateError} : StepFails host p (.loop targets unpacks f body) e ↔
      (∃ fault, p.Faults host f fault ∧ e = .eval fault) ∨ ∃ v, p.Gives host f v ∧
        ((∃ fault, v.iterate = .error fault ∧ e = .eval fault) ∨
          ∃ items, v.iterate = .ok items ∧ ItemsFail host p targets unpacks items body e) := by
  constructor
  · rintro (hraise | ⟨q, inner, henter, hfail⟩)
    · cases hraise with
      | items hf => exact .inl ⟨_, hf, rfl⟩
      | iterate hv hi => exact .inr ⟨_, hv, .inl ⟨_, hi, rfl⟩⟩
      | binding hv hi hdone hb =>
        exact .inr ⟨_, hv, .inr ⟨_, hi, _, _, _, _, rfl, hdone, .inl ⟨_, hb, rfl⟩⟩⟩
    · cases henter with
      | item hv hi hdone hb =>
        exact .inr ⟨_, hv, .inr ⟨_, hi, _, _, _, _, rfl, hdone, .inr ⟨_, hb, hfail⟩⟩⟩
  · rintro (⟨fault, hf, rfl⟩ | ⟨v, hv, ⟨fault, hi, rfl⟩ | ⟨items, hi, done, item, rest, w, rfl,
      hdone, ⟨fault, hb, rfl⟩ | ⟨bindings, hb, hfail⟩⟩⟩)
    · exact .inl (.items hf)
    · exact .inl (.iterate hv hi)
    · exact .inl (.binding hv hi hdone hb)
    · exact .inr ⟨_, body, .item hv hi hdone hb, hfail⟩

def InsertionFails (host : Host) (p : Spot) (v : Value) (e : TemplateError) : Prop :=
  ∃ depth, p.depth = depth + 1 ∧ (Misses p.metadata v p.world e ∨
    ∃ u w, Finds p.metadata v p.world u w ∧
      BlockFails host (.inserted depth p.metadata u w) u.body e)

theorem stepFails_insertion {f : Formula} {e : TemplateError} :
    StepFails host p (.insertion f) e ↔ (∃ fault, p.Faults host f fault ∧ e = .eval fault) ∨
      ∃ v, p.Gives host f v ∧ InsertionFails host p v e := by
  constructor
  · rintro (hraise | ⟨q, inner, henter, hfail⟩)
    · cases hraise with
      | target hf => exact .inl ⟨_, hf, rfl⟩
      | template hd hv hm => exact .inr ⟨_, hv, _, hd, .inl hm⟩
    · cases henter with
      | insertion hd hv hfind => exact .inr ⟨_, hv, _, hd, .inr ⟨_, _, hfind, hfail⟩⟩
  · rintro (⟨fault, hf, rfl⟩ | ⟨v, hv, depth, hd, hm | ⟨u, w, hfind, hfail⟩⟩)
    · exact .inl (.target hf)
    · exact .inl (.template hd hv hm)
    · exact .inr ⟨_, u.body, .insertion hd hv hfind, hfail⟩

end Blocks

end Stencil
