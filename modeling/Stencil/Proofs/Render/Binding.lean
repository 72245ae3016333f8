import Stencil.Proofs.Render.Induction
import Stencil.Proofs.Render.Resolution

/-!
# What an execution binds

However it ends, an execution only sets names that loops of its own template bind, one after
another, and takes none of them back.
-/

namespace Stencil

open Dict (Over)

def loopTargets (segments : List Segment) : List String :=
  segments.flatMap fun s =>
    match s.item with
    | .loop targets _ _ _ => targets
    | _ => []

/-- The names that a step binds, if it is a loop, or loops inside it. -/
def Step.targets : Step → List String
  | .loop targets _ _ body => targets ++ loopTargets (blockSegments body)
  | step => loopTargets step.segments

def Among (names : List String) (entry : String × Value) : Prop :=
  entry.1 ∈ names

private theorem loopTargets_append (segments more : List Segment) :
    loopTargets (segments ++ more) = loopTargets segments ++ loopTargets more :=
  List.flatMap_append

private theorem loopTargets_cons (line : Nat) (step : Step) (rest : List Segment) :
    loopTargets (⟨line, step⟩ :: (step.segments ++ rest)) = step.targets ++ loopTargets rest := by
  have hfirst : loopTargets (⟨line, step⟩ :: step.segments) = step.targets := by
    cases step <;> rfl
  rw [← List.cons_append, loopTargets_append, hfirst]

private theorem mem_loopTargets {segments : List Segment} {line : Nat} {targets : List String}
    {unpacks : Bool} {f : Formula} {body : Block}
    (h : ⟨line, .loop targets unpacks f body⟩ ∈ segments) {x : String} (hx : x ∈ targets) :
    x ∈ loopTargets segments :=
  List.mem_flatMap.mpr ⟨_, h, hx⟩

section Items

variable {targets : List String} {item : Value} {bindings : List (String × Value)}

theorem unpack_eq_ok : unpack targets item = .ok bindings ↔
    ∃ values, item.iterate = .ok values ∧ values.length = targets.length ∧
      bindings = targets.zip values := by
  unfold unpack
  cases item.iterate with
  | error e => simp [bind, Except.bind]
  | ok values =>
    simp only [bind, Except.bind, Except.ok.injEq, exists_eq_left']
    split
    · have hne : values.length ≠ targets.length := by omega
      simp [hne]
    · split
      · have hne : values.length ≠ targets.length := by omega
        simp [hne]
      · have heq : values.length = targets.length := by omega
        simp [heq, pure, Except.pure, eq_comm]

private theorem loopBindings_among {unpacks : Bool}
    (h : loopBindings targets unpacks item = .ok bindings) :
    ∀ entry ∈ bindings, Among targets entry := by
  unfold loopBindings at h
  split at h
  · obtain ⟨values, -, -, rfl⟩ := unpack_eq_ok.mp h
    exact fun entry hentry => (List.of_mem_zip hentry).1
  · split at h
    · cases h
      exact fun _ hm => (List.not_mem_nil hm).elim
    · cases h
      intro entry hentry
      rw [List.mem_singleton.mp hentry]
      exact List.mem_cons_self

end Items

namespace Rendering

/-- An action that sets some names only, one after another, whether it ends or stops. -/
def Sets {α : Type} (names : List String) (x : Rendering α) : Prop :=
  ∀ s, Over (Among names) s.bindings (leaves (x s)).bindings

namespace Sets

variable {α β : Type} {names more : List String} {x : Rendering α}

private theorem of_eq (h : ∀ s, (leaves (x s)).bindings = s.bindings) : Sets names x := by
  intro s
  rw [h]
  exact .refl _

private theorem mono (h : Sets names x) (hsub : names ⊆ more) : Sets more x :=
  fun s => (h s).mono fun _ hentry => hsub hentry

private theorem eq (h : Sets [] x) (s : Stage) : (leaves (x s)).bindings = s.bindings :=
  (h s).eq_of_none fun _ => List.not_mem_nil

private theorem bind {k : α → Rendering β} (hx : Sets names x) (hk : ∀ a, Sets names (k a)) :
    Sets names (x >>= k) := by
  intro s
  have h := hx s
  change Over _ _ (leaves (EStateM.bind x k s)).bindings
  unfold EStateM.bind
  cases hs : x s with
  | ok a t =>
    rw [hs] at h
    exact h.trans (hk a t)
  | error e t =>
    rw [hs] at h
    exact h

theorem ofEval (r : Except EvalError α) : Sets names (ofEval r) := by
  cases r <;> exact of_eq fun s => rfl

private theorem located {x : Rendering Unit} (h : Sets names x) (name : String) (line : Nat) :
    Sets names (located name line x) := by
  intro s
  have hs := h s
  unfold Rendering.located
  rcases hx : x s with ⟨a, t⟩ | ⟨halt, t⟩
  · rwa [hx] at hs
  · rw [hx] at hs
    cases halt <;> exact hs

private theorem isolated (bindings : Dict Value) (x : Rendering Unit) :
    Sets names (isolated bindings x) := by
  refine of_eq fun s => ?_
  unfold Rendering.isolated
  cases x { s with bindings } <;> rfl

private theorem captured (transform : String → String) (x : Rendering Unit) :
    Sets names (captured transform x) := by
  refine of_eq fun s => ?_
  unfold Rendering.captured
  cases x { s with output := #[] } <;> rfl

theorem forM {f : α → Rendering Unit} (hf : ∀ a, Sets names (f a)) (as : List α) :
    Sets names (as.forM f) := by
  induction as with
  | nil => exact of_eq fun s => rfl
  | cons a as ih => exact (hf a).bind fun _ => ih

theorem value (c : Setting) (f : Formula) : Sets names (c.value f) :=
  fun s => ofEval (f.tree.eval (c.environment s.bindings)) s

theorem bindTargets (targets : List String) (unpacks : Bool) (item : Value) :
    Sets targets (bindTargets targets unpacks item) := by
  intro s
  unfold Stencil.bindTargets
  cases h : loopBindings targets unpacks item with
  | error e => exact .refl _
  | ok bindings => exact .made (loopBindings_among h) s.bindings

private theorem runIn {host : Host} {insert : Metadata Value → Value → Rendering Unit}
    (t : Template) (scope : Scope) : Sets [] (t.runIn host insert scope) :=
  isolated scope.bindings _

private theorem loadNamed (m : Metadata Value) (name : String) : Sets names (loadNamed m name) := by
  refine of_eq fun s => ?_
  unfold Stencil.loadNamed
  split
  · split
    · split <;> rfl
    · rfl
  · rfl

private theorem insertedTemplate (m : Metadata Value) (v : Value) :
    Sets names (insertedTemplate m v) := by
  cases v with
  | text name => exact loadNamed m name
  | _ => exact of_eq fun _ => rfl

/-- An insertion binds nothing where it stands, whatever the template inserted binds. -/
theorem insertAt (host : Host) (depth : Nat) (m : Metadata Value) (v : Value) :
    Sets [] (insertAt host depth m v) := by
  cases depth with
  | zero => exact of_eq fun _ => rfl
  | succ depth =>
    rw [Stencil.insertAt]
    exact (insertedTemplate m v).bind fun t s => runIn t (Scope.inserted ⟨s.bindings, m⟩ t none) s

end Sets

end Rendering

open Rendering (Sets leaves)

section Execution

variable {c : Setting}

mutual

private theorem Step.sets_run (hc : ∀ m v, Sets [] (c.insert m v)) :
    ∀ step : Step, Sets step.targets (step.run c)
  | .text _ => .of_eq fun _ => rfl
  | .output f => (Sets.value c f).bind fun _ => .of_eq fun _ => rfl
  | .choice clauses none => by
    have hrun := Step.sets_runClauses hc (.of_eq fun _ => rfl : Sets [] (pure ())) clauses
    rwa [List.append_nil] at hrun
  | .choice clauses (some body) => by
    have hrun := Step.sets_runClauses hc (Step.sets_runBlock hc body) clauses
    rwa [← loopTargets_append] at hrun
  | .loop targets unpacks f body => by
    have hbody := Step.sets_runBlock hc body
    have hitem := fun item => ((Sets.bindTargets targets unpacks item).mono
      (List.subset_append_left _ _)).bind fun _ => hbody.mono (List.subset_append_right _ _)
    rw [Step.run]
    exact (Sets.value c f).bind fun v => (Sets.ofEval v.iterate).bind fun items =>
      Sets.forM hitem items
  | .insertion f => (Sets.value c f).bind fun v => hc c.metadata v
  | .captured _ transform body => .captured transform (runBlock c body)

private theorem Step.sets_runClauses (hc : ∀ m v, Sets [] (c.insert m v)) {names : List String}
    {fallback : Rendering Unit} (hlast : Sets names fallback) :
    ∀ clauses : List (Formula × List (Located Step)),
      Sets (loopTargets (clausesSegments clauses) ++ names) (runClauses c fallback clauses)
  | [] => hlast
  | (condition, body) :: rest => by
    have hbody := Step.sets_runBlock hc body
    have hrest := Step.sets_runClauses hc hlast rest
    rw [runClauses, clausesSegments, loopTargets_append, List.append_assoc]
    refine (Sets.value c condition).bind fun v => ?_
    cases v.truthy with
    | true => exact hbody.mono (List.subset_append_left _ _)
    | false => exact hrest.mono (List.subset_append_right _ _)

private theorem Step.sets_runBlock (hc : ∀ m v, Sets [] (c.insert m v)) :
    ∀ body : List (Located Step), Sets (loopTargets (blockSegments body)) (runBlock c body)
  | [] => .of_eq fun _ => rfl
  | ⟨line, step⟩ :: rest => by
    have hstep := (Step.sets_run hc step).located c.name line
    have hrest := Step.sets_runBlock hc rest
    rw [runBlock, blockSegments, loopTargets_cons]
    exact (hstep.mono (List.subset_append_left _ _)).bind fun _ =>
      hrest.mono (List.subset_append_right _ _)

end

def Setting.pass (c : Setting) (targets : List String) (unpacks : Bool) (body : Block)
    (item : Value) : Rendering Unit := do
  bindTargets targets unpacks item
  runBlock c body

private theorem Sets.pass (hc : ∀ m v, Sets [] (c.insert m v)) (targets : List String)
    (unpacks : Bool) (body : Block) (item : Value) :
    Sets (targets ++ loopTargets (blockSegments body)) (c.pass targets unpacks body item) :=
  ((Sets.bindTargets targets unpacks item).mono (List.subset_append_left _ _)).bind fun _ =>
    (Step.sets_runBlock hc body).mono (List.subset_append_right _ _)

variable {targets : List String} {unpacks : Bool} {f : Formula} {body : Block} {s : Stage}
variable {v : Value} {items : List Value}

theorem bind_at {α β : Type} {x y : Rendering α} {s t : Stage} (h : x s = y t)
    (k : α → Rendering β) : (x >>= k) s = (y >>= k) t := by
  change EStateM.bind x k s = EStateM.bind y k t
  unfold EStateM.bind
  rw [h]

theorem value_eq_pure (h : f.tree.eval (c.environment s.bindings) = .ok v) :
    c.value f s = (pure v : Rendering Value) s := by
  rw [Setting.value, h]
  rfl

theorem Step.run_loop (hv : f.tree.eval (c.environment s.bindings) = .ok v)
    (hitems : v.iterate = .ok items) :
    (Step.loop targets unpacks f body).run c s = items.forM (c.pass targets unpacks body) s := by
  rw [Step.run, bind_at (value_eq_pure hv), pure_bind, hitems]
  rfl

private theorem forM_from {α : Type} {g : α → Rendering Unit} {done rest : List α} {s r : Stage}
    (h : done.forM g s = .ok () r) : (done ++ rest).forM g s = rest.forM g r := by
  have happend : (done ++ rest).forM g = (do done.forM g; rest.forM g) := List.forM_append
  rw [happend]
  exact bind_at (y := pure ()) h _

theorem Setting.pass_eq {item : Value} {bindings : List (String × Value)}
    (h : loopBindings targets unpacks item = .ok bindings) (s : Stage) :
    c.pass targets unpacks body item s =
      runBlock c body { s with bindings := s.bindings.extend bindings } := by
  unfold Setting.pass bindTargets
  rw [h]
  rfl

theorem forM_cons_at {α : Type} {g : α → Rendering Unit} {x : Rendering Unit} {a : α}
    {s t : Stage} (h : g a s = x t) (rest : List α) :
    (a :: rest).forM g s = (x >>= fun _ => rest.forM g) t :=
  bind_at h _

/-- What a loop has bound stays when it is done, but for what its block binds itself. -/
private theorem Step.loop_keeps (hc : ∀ m v, Sets [] (c.insert m v)) {done rest : List Value}
    {item : Value} {bindings : List (String × Value)} {r : Stage} {names : List String}
    (hv : f.tree.eval (c.environment s.bindings) = .ok v)
    (hitems : v.iterate = .ok (done ++ item :: rest))
    (hdone : done.forM (c.pass targets unpacks body) s = .ok () r)
    (hbindings : loopBindings targets unpacks item = .ok bindings)
    (hbody : loopTargets (blockSegments body) ⊆ names) (hrest : rest ≠ [] → targets ⊆ names) :
    Over (Among names) (r.bindings.extend bindings)
      (leaves ((Step.loop targets unpacks f body).run c s)).bindings := by
  have hlater : Sets names (rest.forM (c.pass targets unpacks body)) := by
    cases rest with
    | nil => exact .of_eq fun _ => rfl
    | cons next rest =>
      have hsub := List.append_subset.mpr ⟨hrest (List.cons_ne_nil _ _), hbody⟩
      exact Sets.forM (fun item => (Sets.pass hc targets unpacks body item).mono hsub) _
  have hrun := ((Step.sets_runBlock hc body).mono hbody).bind fun _ => hlater
  rw [Step.run_loop hv hitems, forM_from hdone,
    forM_cons_at (Setting.pass_eq hbindings r)]
  exact hrun _

end Execution

private theorem Compiled.LoopBinds.among {host : Host} {t : Template} {entry : String × Value}
    (h : t.LoopBinds host entry) : Among (loopTargets (blockSegments t.body)) entry := by
  obtain ⟨-, hline, -, -, -, hbindings, hentry⟩ := h
  exact mem_loopTargets hline (loopBindings_among hbindings entry hentry)

/-- An execution binds the targets of the loops of its template and no other names, wherever it ends
or stops, and its metadata stays in force. A step without loops binds nothing, insertions included.
What a loop has bound for an item stays, but for what the loops in its block and the items that
follow bind. -/
theorem loops_bind_targets (host : Host) (depth : Nat) (t : Template) (m : Metadata Value) :
    let c : Setting := ⟨t.name, m, host, insertAt host depth⟩
    let names := loopTargets (blockSegments t.body)
    (∀ s, Over (Among names) s.bindings (leaves (runBlock c t.body s)).bindings ∧
      ∀ x ∉ names, (leaves (runBlock c t.body s)).bindings.get? x = s.bindings.get? x) ∧
    (∀ (s : Stage) q segment, Meets host ⟨depth, t, m, s.world⟩ t.body q segment →
      q.metadata = m ∧ Over (Among names) s.bindings q.world.bindings) ∧
    (∀ step : Step, step.targets = [] → ∀ s, (leaves (step.run c s)).bindings = s.bindings) ∧
    ∀ targets unpacks f body s r v done item rest bindings,
      f.tree.eval (c.environment s.bindings) = .ok v → v.iterate = .ok (done ++ item :: rest) →
      done.forM (c.pass targets unpacks body) s = .ok () r →
      loopBindings targets unpacks item = .ok bindings →
      let inner := loopTargets (blockSegments body)
      Over (Among (if rest = [] then inner else targets ++ inner)) (r.bindings.extend bindings)
        (leaves ((Step.loop targets unpacks f body).run c s)).bindings := by
  intro c names
  have hc : ∀ m v, Sets [] (c.insert m v) := Sets.insertAt host depth
  refine ⟨fun s => ?_, fun s q segment hmeets => ?_, fun step hstep s => ?_, ?_⟩
  · have hsets := Step.sets_runBlock hc t.body s
    exact ⟨hsets, fun x hx => hsets.get? fun _ => hx⟩
  · have hstays := hmeets.stays (List.Subset.refl _)
    exact ⟨hstays.metadata, Over.mono hstays.loops fun _ => Compiled.LoopBinds.among⟩
  · have hsets := Step.sets_run hc step
    rw [hstep] at hsets
    exact hsets.eq s
  · intro targets unpacks f body s r v done item rest bindings hv hitems hdone hbindings inner
    refine Step.loop_keeps hc hv hitems hdone hbindings ?_ fun hrest => ?_
    · split
      · exact List.Subset.refl _
      · exact List.subset_append_right _ _
    · rw [if_neg hrest]
      exact List.subset_append_left _ _

/-- A loop whose block inserts a template with a loop over another name, and a fault after it. -/
theorem loops_bind_targets_inserted :
    let items : Formula := ⟨"s", .name "s"⟩
    let inner : Template := ⟨[⟨1, .loop ["i"] false items []⟩], [], ⟨"inner", none, none, []⟩, 1⟩
    let body : Block := [⟨2, .insertion ⟨"t", .name "t"⟩⟩]
    let block : Block := [⟨1, .loop ["j"] false items body⟩, ⟨3, .output ⟨"i", .name "i"⟩⟩]
    let outer : Template := ⟨block, [], ⟨"outer", none, none, []⟩, 0⟩
    let host : Host := fun _ _ => .error .overflow
    let c : Setting := ⟨"outer", outer.metadata, host, insertAt host 1⟩
    let s : Stage := ⟨[("t", .template inner), ("s", .list [.text "a", .text "b"])], #[], none⟩
    let after := (leaves (runBlock c block s)).bindings
    after.get? "i" = none ∧ after.get? "j" = some (.text "b") := by
  intro items inner body block outer host c s after
  obtain ⟨hblock, -, -, hloop⟩ := loops_bind_targets host 1 outer outer.metadata
  have hother : ∀ x ∉ ["j"], after.get? x = s.bindings.get? x := (hblock s).2
  have hj := hloop ["j"] false items body s
    ⟨s.bindings.extend [("j", .text "a")], #[], none⟩ (.list [.text "a", .text "b"]) [.text "a"]
    (.text "b") [] [("j", .text "b")] rfl rfl rfl rfl
  exact ⟨hother "i" (by decide), hj.get? fun _ => List.not_mem_nil⟩

end Stencil
