import Stencil.Proofs.Render.Reach
import Stencil.Proofs.Render.Scopes

/-!
# Names across insertions

Templates that insert one another hand their bindings inwards and their globals too, but the first
to bind a name has it while the last to hold a global has it. Inside a template only loops bind.
-/

namespace Stencil

/-- A binding that a loop of the template makes for one of its items. -/
inductive Compiled.LoopBinds (host : Host) (t : Template) (entry : String × Value) : Prop where
  | item {p : Spot} {line targets unpacks f body v items item bindings} : p.holder = t →
      ⟨line, .loop targets unpacks f body⟩ ∈ blockSegments t.body → p.Gives host f v →
      v.iterate = .ok items → item ∈ items → loopBindings targets unpacks item = .ok bindings →
      entry ∈ bindings → LoopBinds host t entry

def Compiled.Loops (host : Host) (t : Template) (b b' : Dict Value) : Prop :=
  ∃ made, b' = b.extend made ∧ ∀ entry ∈ made, t.LoopBinds host entry

namespace Compiled.Loops

variable {host : Host} {t : Template} {a b c : Dict Value}

private theorem made {made : List (String × Value)} (h : ∀ entry ∈ made, t.LoopBinds host entry)
    (b : Dict Value) : t.Loops host b (b.extend made) :=
  Dict.Over.made h b

private theorem refl (b : Dict Value) : t.Loops host b b :=
  Dict.Over.refl b

private theorem trans (h : t.Loops host a b) (h' : t.Loops host b c) : t.Loops host a c :=
  Dict.Over.trans h h'

end Compiled.Loops

def Task.Within (host : Host) (t : Template) : Task → Prop
  | .step s => (∃ line, ⟨line, s⟩ ∈ blockSegments t.body) ∧ s.segments ⊆ blockSegments t.body
  | .clauses cs fallback => clausesSegments cs ⊆ blockSegments t.body ∧
      blockSegments fallback ⊆ blockSegments t.body
  | .items targets unpacks values body => blockSegments body ⊆ blockSegments t.body ∧
      ∀ item ∈ values, ∀ bindings, loopBindings targets unpacks item = .ok bindings →
        ∀ entry ∈ bindings, t.LoopBinds host entry
  | .block body => blockSegments body ⊆ blockSegments t.body
  | .insertion _ => True

private theorem choice_segments (clauses : List (Formula × Block)) (last : Option Block) :
    (Step.choice clauses last).segments =
      clausesSegments clauses ++ blockSegments (last.getD []) := by
  cases last with
  | none => rw [Step.segments, Option.getD_none, blockSegments, List.append_nil]
  | some body => rfl

/-- Executing part of a template binds what its loops bind. Insertions and blocks rendered apart
leave the bindings as they were. -/
private theorem Runs.loops {host : Host} {depth : Nat} {t : Template} {m : Metadata Value}
    {task : Task} {w w' : World} {es : List Event} (h : Runs host depth t m task w es w')
    (ht : task.Within host t) : t.Loops host w.bindings w'.bindings := by
  induction h with
  | text => exact .refl _
  | output => exact .refl _
  | choice _ ih =>
    rw [Task.Within, choice_segments, List.append_subset] at ht
    exact ih ht.2
  | @loop depth t m targets unpacks f body w v items es w' hgives hitems _ ih =>
    obtain ⟨⟨line, hline⟩, hbody⟩ := ht
    refine ih ⟨hbody, fun item hitem bindings hbindings entry hentry => ?_⟩
    have hspot : (⟨depth, t, m, w⟩ : Spot).Gives host f v := hgives
    exact .item rfl hline hspot hitems hitem hbindings hentry
  | insertion _ _ ih => exact ih trivial
  | captured => exact .refl _
  | fallback _ ih => exact ih ht.2
  | holds _ _ _ ih => exact ih (List.append_subset.mp ht.1).1
  | fails _ _ _ ih => exact ih ⟨(List.append_subset.mp ht.1).2, ht.2⟩
  | noItems => exact .refl _
  | item hbindings _ _ ihbody ihrest =>
    obtain ⟨hbody, hitems⟩ := ht
    obtain ⟨hfirst, hrest⟩ := List.forall_mem_cons.mp hitems
    have hitem := Compiled.Loops.made (hfirst _ hbindings)
    exact (hitem _).trans ((ihbody hbody).trans (ihrest ⟨hbody, hrest⟩))
  | nothing => exact .refl _
  | next _ _ ihstep ihrest =>
    rw [Task.Within, blockSegments, List.cons_subset, List.append_subset] at ht
    obtain ⟨hstep, hinner, hrest⟩ := ht
    exact (ihstep ⟨⟨_, hstep⟩, hinner⟩).trans (ihrest hrest)
  | inserted hfinds _ _ =>
    cases hfinds with
    | template => exact .refl _
    | name => exact .refl _

private theorem blockSegments_append (a b : Block) :
    blockSegments (a ++ b) = blockSegments a ++ blockSegments b := by
  induction a with
  | nil => rfl
  | cons s a ih => simp only [List.cons_append, blockSegments, ih, List.append_assoc]

structure Spot.Stays (host : Host) (p q : Spot) : Prop where
  depth : q.depth = p.depth
  holder : q.holder = p.holder
  metadata : q.metadata = p.metadata
  loops : p.holder.Loops host p.world.bindings q.world.bindings

private theorem Spot.Stays.trans {host : Host} {p q r : Spot} (h : p.Stays host q)
    (h' : q.Stays host r) :
    p.Stays host r := by
  have hloops := h'.loops
  rw [h.holder] at hloops
  exact ⟨h'.depth.trans h.depth, h'.holder.trans h.holder, h'.metadata.trans h.metadata,
    h.loops.trans hloops⟩

section Inside

variable {host : Host} {p q : Spot} {body : Block}

private theorem Comes.stays {s : Segment} {w : World} (h : Comes host p body s w)
    (hb : blockSegments body ⊆ blockSegments p.holder.body) :
    p.Stays host { p with world := w } ∧ s ∈ blockSegments p.holder.body ∧
      s.item.segments ⊆ blockSegments p.holder.body := by
  obtain ⟨done, rest, rfl, es, hrun⟩ := h
  rw [blockSegments_append, List.append_subset, blockSegments, List.cons_subset,
    List.append_subset] at hb
  obtain ⟨hdone, hs, hinner, -⟩ := hb
  exact ⟨⟨rfl, rfl, rfl, hrun.loops hdone⟩, hs, hinner⟩

private theorem Enters.stays {step : Step} (h : Enters host p step q body)
    (hstep : ∀ f, step ≠ .insertion f) {line : Nat}
    (hline : ⟨line, step⟩ ∈ blockSegments p.holder.body)
    (hinner : step.segments ⊆ blockSegments p.holder.body) :
    p.Stays host q ∧ blockSegments body ⊆ blockSegments q.holder.body := by
  have hbody : q.holder = p.holder → blockSegments body ⊆ blockSegments q.holder.body := by
    intro hholder
    rcases h.segments with ⟨-, hsub⟩ | rfl
    · rw [hholder]
      exact List.Subset.trans hsub hinner
    · exact List.Subset.refl _
  cases h with
  | clause => exact ⟨⟨rfl, rfl, rfl, .refl _⟩, hbody rfl⟩
  | last => exact ⟨⟨rfl, rfl, rfl, .refl _⟩, hbody rfl⟩
  | captured => exact ⟨⟨rfl, rfl, rfl, .refl _⟩, hbody rfl⟩
  | insertion => exact absurd rfl (hstep _)
  | @item targets unpacks f body v done item rest w bindings hgives hitems hdone hbindings =>
    obtain ⟨es, hrun⟩ := hdone
    have hbinds : ∀ item' ∈ done ++ item :: rest, ∀ bindings',
        loopBindings targets unpacks item' = .ok bindings' →
          ∀ entry ∈ bindings', p.holder.LoopBinds host entry :=
      fun item' hitem bindings' hb entry he => .item rfl hline hgives hitems hitem hb he
    obtain ⟨hbefore, hnow⟩ := List.forall_mem_append.mp hbinds
    have hloops := hrun.loops ⟨hinner, hbefore⟩
    have hitem := Compiled.Loops.made (hnow item List.mem_cons_self bindings hbindings)
    exact ⟨⟨rfl, rfl, rfl, hloops.trans (hitem _)⟩, hbody rfl⟩

end Inside

/-- Executing a block comes to a segment, its own or one of a block inside it. -/
inductive Meets (host : Host) : Spot → Block → Spot → Segment → Prop where
  | here {p body s w} : Comes host p body s w → Meets host p body { p with world := w } s
  | inside {p body s w q inner r t} : Comes host p body s w → (∀ f, s.item ≠ .insertion f) →
      Enters host { p with world := w } s.item q inner → Meets host q inner r t →
      Meets host p body r t

theorem Meets.stays {host : Host} {p q : Spot} {body : Block} {s : Segment}
    (h : Meets host p body q s) (hb : blockSegments body ⊆ blockSegments p.holder.body) :
    p.Stays host q := by
  induction h with
  | here hcomes => exact (hcomes.stays hb).1
  | inside hcomes hstep henter _ ih =>
    obtain ⟨hstays, hline, hinner⟩ := hcomes.stays hb
    obtain ⟨hinside, hbody⟩ := henter.stays hstep hline hinner
    exact hstays.trans (hinside.trans (ih hbody))

/-- Templates that insert one another, the innermost first, the bindings around the innermost, and
where it begins. The bindings around the outermost are the parameters of the render. -/
inductive Nesting (host : Host) (depth : Nat) (params : Dict Value) (loader : Option Loader) :
    List Template → Dict Value → Spot → Prop where
  | first (t : Template) : Nesting host depth params loader [t] (Dict.ofList params)
      ⟨depth, t, t.metadata, ⟨Dict.extend t.defaults params, loader⟩⟩
  | next {ts b p q line f r} : Nesting host depth params loader ts b p →
      Meets host p p.holder.body q ⟨line, .insertion f⟩ →
      Enters host q (.insertion f) r r.holder.body →
      Nesting host depth params loader (r.holder :: ts) q.world.bindings r

private theorem findSome?_cons_or {α β : Type} (a : α) (as : List α) (f : α → Option β) :
    (a :: as).findSome? f = (f a).or (as.findSome? f) := by
  rw [List.findSome?_cons]
  cases f a <;> rfl

section Nesting

variable {host : Host} {depth : Nat} {params : Dict Value} {loader : Option Loader}

private theorem Reaches.nested_from {p q : Spot} {body : Block} {s : Segment}
    (h : Reaches host p body q s) {ts : List Template} {b : Dict Value} {r : Spot}
    (hr : Nesting host depth params loader ts b r)
    (hp : ∀ q' s', Meets host p body q' s' → Meets host r r.holder.body q' s') :
    ∃ ts b r, Nesting host depth params loader ts b r ∧ Meets host r r.holder.body q s := by
  induction h generalizing ts b r with
  | here hcomes => exact ⟨ts, b, r, hr, hp _ _ (.here hcomes)⟩
  | @inside p body s w q inner _ _ hcomes henter _ ih =>
    by_cases hs : ∃ f, s.item = .insertion f
    · obtain ⟨f, hf⟩ := hs
      rw [hf] at henter
      have hinner : inner = q.holder.body := by
        cases henter
        rfl
      subst hinner
      have htag : Meets host p body { p with world := w } ⟨s.line, .insertion f⟩ := by
        rw [← hf]
        exact .here hcomes
      exact ih (.next hr (hp _ _ htag) henter) fun _ _ hm => hm
    · have hstep : ∀ f, s.item ≠ .insertion f := fun f hf => hs ⟨f, hf⟩
      exact ih hr fun q' s' hm => hp q' s' (.inside hcomes hstep henter hm)

/-- Wherever an execution stands, it is in the innermost of templates that insert one another. -/
theorem Reaches.nested {t : Template} {q : Spot} {s : Segment}
    (h : Reaches host ⟨depth, t, t.metadata, ⟨Dict.extend t.defaults params, loader⟩⟩ t.body q s) :
    ∃ ts b r, Nesting host depth params loader ts b r ∧ Meets host r r.holder.body q s :=
  h.nested_from (.first t) fun _ _ hm => hm

structure Nesting.Scoped (host : Host) (params : Dict Value) (ts : List Template) (b : Dict Value)
    (p : Spot) : Prop where
  name : p.metadata.name = p.holder.name
  globals : ∀ x, Dict.get? x p.metadata.globals =
    (p.holder :: ts).findSome? fun t => Dict.get? x t.metadata.globals
  nodup : (Dict.keys p.world.bindings).Nodup
  bindings : ∀ x, Dict.get? x p.world.bindings = (Dict.get? x b).or (Dict.get? x p.holder.defaults)
  outer : ∃ loops : List (String × Value),
    (∀ entry ∈ loops, ∃ t ∈ ts, t.LoopBinds host entry) ∧
    ∀ x, Dict.get? x b = (loops.reverse.lookup x).or
      ((Dict.get? x (Dict.ofList params)).or
        (ts.reverse.findSome? fun t => Dict.get? x t.defaults))

private theorem Nesting.Scoped.onward {ts : List Template} {b : Dict Value} {p q : Spot}
    (h : Nesting.Scoped host params ts b p) (hq : p.Stays host q) :
    ∃ loops : List (String × Value),
      (∀ entry ∈ loops, ∃ t ∈ p.holder :: ts, t.LoopBinds host entry) ∧ ∀ x,
        Dict.get? x q.world.bindings = (loops.reverse.lookup x).or
          ((Dict.get? x (Dict.ofList params)).or
            ((p.holder :: ts).reverse.findSome? fun t => Dict.get? x t.defaults)) := by
  obtain ⟨made, hmade, hloops⟩ := hq.loops
  obtain ⟨loops, hbefore, hlookup⟩ := h.outer
  refine ⟨loops ++ made, List.forall_mem_append.mpr ⟨?_, ?_⟩, fun x => ?_⟩
  · intro entry hentry
    obtain ⟨t, hmem, hbinds⟩ := hbefore entry hentry
    exact ⟨t, List.mem_cons_of_mem _ hmem, hbinds⟩
  · exact fun entry hentry => ⟨p.holder, List.mem_cons_self, hloops entry hentry⟩
  · rw [hmade, Dict.get?_extend, h.bindings, hlookup, List.reverse_append, List.lookup_append,
      List.reverse_cons, List.findSome?_append]
    simp [Option.or_assoc]

private theorem Nesting.scoped {ts : List Template} {b : Dict Value} {p : Spot}
    (h : Nesting host depth params loader ts b p) (hd : ∀ t ∈ ts, t.Distinct) :
    ∃ rest, ts = p.holder :: rest ∧ Nesting.Scoped host params rest b p := by
  -- Each insertion adds the bindings made on the way to its tag to those of the templates around.
  induction h with
  | first t =>
    have ht := hd t List.mem_cons_self
    have hparams : ∀ x, Dict.get? x (Dict.ofList params) = params.reverse.lookup x := by
      intro x
      rw [Dict.ofList, Dict.get?_extend]
      exact Option.or_none
    refine ⟨[], rfl, rfl, fun x => ?_, Dict.keys_extend_nodup ht.1 params, fun x => ?_, [], ?_,
      fun x => ?_⟩
    · simp
    · rw [hparams]
      exact Dict.get?_extend _ _ _
    · exact fun _ hm => (List.not_mem_nil hm).elim
    · simp
  | @next ts b p q line f r hn hmeets henter ih =>
    obtain ⟨ht, hts⟩ := List.forall_mem_cons.mp hd
    obtain ⟨rest, rfl, hscoped⟩ := ih hts
    have hstays := hmeets.stays (List.Subset.refl _)
    have hnodup : (Dict.keys q.world.bindings).Nodup := by
      obtain ⟨made, hmade, -⟩ := hstays.loops
      rw [hmade]
      exact Dict.keys_extend_nodup hscoped.nodup made
    cases henter with
    | @insertion inner _ v u w hdepth hgives hfinds =>
      have hw : w.bindings = q.world.bindings := by
        generalize q.world = world at hfinds
        cases hfinds <;> rfl
      rw [← hw] at hnodup
      refine ⟨p.holder :: rest, rfl, rfl, fun x => ?_, ?_, fun x => ?_, hscoped.onward hstays⟩
      · have hglobals : Dict.get? x (Spot.inserted inner q.metadata u w).metadata.globals =
            (Dict.get? x u.metadata.globals).or (Dict.get? x q.metadata.globals) :=
          Scope.inserted_globals ⟨w.bindings, q.metadata⟩ ht x
        have haround : Dict.get? x q.metadata.globals =
            (p.holder :: rest).findSome? fun t => Dict.get? x t.metadata.globals := by
          rw [hstays.metadata, hscoped.globals]
        rw [haround] at hglobals
        exact hglobals.trans (findSome?_cons_or u (p.holder :: rest) fun t =>
          Dict.get? x t.metadata.globals).symm
      · exact Dict.keys_extend_nodup hnodup _
      · rw [← hw]
        exact Scope.inserted_bindings ⟨w.bindings, q.metadata⟩ hnodup ht x

private theorem Environment.resolve_eq (env : Environment) (x : String) :
    env.resolve x = ((env.lookup x).or
      ((Builtin.ofName? x).map fun f => .function (.builtin f))).elim
        (.error (.undefinedName x)) .ok := by
  rw [resolve]
  cases env.lookup x with
  | some v => rfl
  | none => cases Builtin.ofName? x <;> rfl

/-- A name at the beginning of a template that others insert, each with defaults and globals of its
own: the bindings around it have the say, then its defaults, its globals and those of the others
outwards, its own name, and the builtin functions. The bindings around it are the latest that loops
of the others have made, then the parameters, then the defaults of the others inwards. -/
theorem name_resolution {t : Template} {ts : List Template} {b : Dict Value} {p : Spot}
    (h : Nesting host depth params loader (t :: ts) b p) (hd : ∀ u ∈ t :: ts, u.Distinct) :
    (∀ x, (Expr.name x).eval ⟨Scope.lookup ⟨p.world.bindings, p.metadata⟩, host⟩ =
      ((Dict.get? x b).or ((Dict.get? x t.defaults).or
        (((t :: ts).findSome? fun u => Dict.get? x u.metadata.globals).or
          ((if x = "__name__" then some (.text t.name) else none).or
            ((Builtin.ofName? x).map fun f => .function (.builtin f)))))).elim
        (.error (.undefinedName x)) .ok) ∧
    ∃ loops : List (String × Value), (∀ entry ∈ loops, ∃ u ∈ ts, u.LoopBinds host entry) ∧
      ∀ x, Dict.get? x b = (loops.reverse.lookup x).or
        ((Dict.get? x (Dict.ofList params)).or
          (ts.reverse.findSome? fun u => Dict.get? x u.defaults)) := by
  obtain ⟨rest, hts, hscoped⟩ := h.scoped hd
  obtain ⟨rfl, rfl⟩ := List.cons.inj hts
  refine ⟨fun x => ?_, hscoped.outer⟩
  have hlookup : Scope.lookup ⟨p.world.bindings, p.metadata⟩ x =
      (Dict.get? x b).or ((Dict.get? x p.holder.defaults).or
        (((p.holder :: ts).findSome? fun u => Dict.get? x u.metadata.globals).or
          (if x = "__name__" then some (.text p.holder.name) else none))) := by
    rw [Scope.lookup_eq, Metadata.get?, hscoped.bindings, hscoped.globals, hscoped.name,
      Option.or_assoc]
    cases (p.holder :: ts).findSome? fun u => Dict.get? x u.metadata.globals <;> rfl
  simp only [Expr.eval, Environment.resolve_eq, hlookup, Option.or_assoc]

/-- A template inserted in a loop, whose names are bound at two places each. -/
theorem name_resolution_loop :
    let host : Host := fun _ _ => .error .overflow
    let inner : Template := ⟨[], [("x", .text "inner"), ("y", .text "inner")],
      ⟨"inner", none, none, [("g", .text "inner")]⟩, 1⟩
    let tag : Segment := ⟨2, .insertion ⟨"t", .name "t"⟩⟩
    let outer : Template := ⟨[⟨1, .loop ["i"] false ⟨"s", .name "s"⟩ [tag]⟩],
      [("t", .template inner), ("x", .text "outer")],
      ⟨"outer", none, none, [("g", .text "outer"), ("h", .text "outer")]⟩, 0⟩
    let params : Dict Value := [("s", .text "a"), ("i", .text "i")]
    let b : Dict Value := (Dict.extend outer.defaults params).extend [("i", .text "a")]
    let p : Spot := .inserted 0 outer.metadata inner ⟨b, none⟩
    let value := fun x => (Expr.name x).eval ⟨Scope.lookup ⟨p.world.bindings, p.metadata⟩, host⟩
    Nesting host 1 params none [inner, outer] b p ∧ (∀ u ∈ [inner, outer], u.Distinct) ∧
      value "i" = .ok (.text "a") ∧ value "x" = .ok (.text "outer") ∧
      value "y" = .ok (.text "inner") ∧ value "g" = .ok (.text "inner") ∧
      value "h" = .ok (.text "outer") ∧ value "__name__" = .ok (.text "inner") ∧
      value "len" = .ok (.function (.builtin .len)) ∧ value "z" = .error (.undefinedName "z") := by
  intro host inner tag outer params b p value
  let start : Spot := ⟨1, outer, outer.metadata, ⟨Dict.extend outer.defaults params, none⟩⟩
  let inside : Spot := ⟨1, outer, outer.metadata, ⟨b, none⟩⟩
  have hitems : start.Gives host ⟨"s", .name "s"⟩ (.text "a") := by rfl
  have htarget : inside.Gives host ⟨"t", .name "t"⟩ (.template inner) := by rfl
  have hloop : Enters host start (.loop ["i"] false ⟨"s", .name "s"⟩ [tag]) inside [tag] :=
    .item hitems rfl ⟨[], .noItems⟩ rfl
  have hmeets : Meets host start outer.body inside tag :=
    .inside ⟨[], [], rfl, [], .nothing⟩ (by simp) hloop (.here ⟨[], [], rfl, [], .nothing⟩)
  have henter : Enters host inside tag.item p inner.body :=
    .insertion rfl htarget (.template inner _)
  have hnesting : Nesting host 1 params none [inner, outer] b p :=
    .next (.first outer) hmeets henter
  have hdistinct : ∀ u ∈ [inner, outer], u.Distinct := by
    simp [Compiled.Distinct, Dict.keys, inner, outer]
  have hvalue := (name_resolution hnesting hdistinct).1
  exact ⟨hnesting, hdistinct, hvalue "i", hvalue "x", hvalue "y", hvalue "g", hvalue "h",
    hvalue "__name__", hvalue "len", hvalue "z"⟩

end Nesting

end Stencil
