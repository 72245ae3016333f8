import Stencil.Proofs.Render.Induction

/-!
# Loads of a render

The templates that a render asks its loader for, in order and each with the loader as it was. These
loads are all that a render does to its loader, whether it ends or stops.
-/

namespace Stencil

/-- A template asked for by name, of a loader as it was then. -/
structure Ask where
  name : String
  loader : Loader

namespace Ask

def answer (a : Ask) : Except TemplateError Template :=
  (a.loader.load a.name).1

def left (a : Ask) : Loader :=
  (a.loader.load a.name).2

end Ask

/-- What an action asks for, from a stage on. -/
abbrev Trail := Stage → List Ask

namespace Trail

def silent : Trail :=
  fun _ => []

def after {α : Type} (x : Rendering α) (rest : α → Trail) : Trail := fun s =>
  match x s with
  | .ok a t => rest a t
  | .error _ _ => []

def bind {α : Type} (during : Trail) (x : Rendering α) (rest : α → Trail) : Trail := fun s =>
  during s ++ after x rest s

def forM {α : Type} (f : α → Rendering Unit) (during : α → Trail) : List α → Trail
  | [] => silent
  | a :: as => (during a).bind (f a) fun _ => forM f during as

def template (m : Metadata Value) : Value → Trail
  | .text name => fun s =>
    match s.loader with
    | some l => if m.loader = some l.number then [⟨name, l⟩] else []
    | none => []
  | _ => silent

end Trail

open Trail

mutual

/-- Executing a step, where `inner` is the trail of what is inserted. -/
def Step.trail (c : Setting) (inner : Metadata Value → Value → Trail) : Step → Trail
  | .text _ => silent
  | .output _ => silent
  | .choice clauses none => clausesTrail c inner silent clauses
  | .choice clauses (some body) => clausesTrail c inner (blockTrail c inner body) clauses
  | .loop targets unpacks f body =>
    after (c.value f) fun v => after (Rendering.ofEval v.iterate) fun items =>
      forM (fun item => do bindTargets targets unpacks item; runBlock c body)
        (fun item => after (bindTargets targets unpacks item) fun _ => blockTrail c inner body)
        items
  | .insertion f => after (c.value f) (inner c.metadata)
  | .captured _ _ body => fun s => blockTrail c inner body { s with output := #[] }

def clausesTrail (c : Setting) (inner : Metadata Value → Value → Trail) (fallback : Trail) :
    List (Formula × List (Located Step)) → Trail
  | [] => fallback
  | (condition, body) :: rest =>
    after (c.value condition) fun v =>
      if v.truthy then blockTrail c inner body else clausesTrail c inner fallback rest

def blockTrail (c : Setting) (inner : Metadata Value → Value → Trail) :
    List (Located Step) → Trail
  | [] => silent
  | ⟨line, step⟩ :: rest =>
    (step.trail c inner).bind (Rendering.located c.name line (step.run c)) fun _ =>
      blockTrail c inner rest

end

def Compiled.trailIn (host : Host) (insert : Metadata Value → Value → Rendering Unit)
    (inner : Metadata Value → Value → Trail) (t : Template) (scope : Scope) : Trail := fun s =>
  blockTrail ⟨t.name, scope.metadata, host, insert⟩ inner t.body
    { s with bindings := scope.bindings }

def insertionTrail (host : Host) : Nat → Metadata Value → Value → Trail
  | 0, _, _ => silent
  | depth + 1, m, v => (template m v).bind (insertedTemplate m v) fun t s =>
    t.trailIn host (insertAt host depth) (insertionTrail host depth)
      (Scope.inserted ⟨s.bindings, m⟩ t none) s

def Compiled.trail (host : Host) (depth : Nat) (t : Template) (params : Dict Value)
    (loader : Option Loader) : List Ask :=
  t.trailIn host (insertAt host depth) (insertionTrail host depth) (.ofTemplate t params)
    ⟨[], #[], loader⟩

def Loader.trail (host : Host) (depth : Nat) (l : Loader) (name : String) (params : Dict Value) :
    List Ask :=
  ⟨name, l⟩ ::
    match l.load name with
    | (.ok t, l) => t.trail host depth params (some l)
    | (.error _, _) => []

/-- Loads one after another: each asks the loader that the ones before it left. -/
inductive Loads : Option Loader → List Ask → Option Loader → Prop where
  | nil {l} : Loads l [] l
  | cons {a as l} : Loads (some a.left) as l → Loads (some a.loader) (a :: as) l

private theorem Loads.single (a : Ask) : Loads (some a.loader) [a] (some a.left) :=
  .cons .nil

private theorem Loads.append {l m n : Option Loader} {as bs : List Ask} (h : Loads l as m)
    (hm : Loads m bs n) : Loads l (as ++ bs) n := by
  induction h with
  | nil => exact hm
  | cons _ ih => exact .cons (ih hm)

/-- An action whose trail is all that it does to the loader. -/
def Follows {α : Type} (x : Rendering α) (during : Trail) : Prop :=
  ∀ s, Loads s.loader (during s) (Rendering.leaves (x s)).loader

namespace Follows

variable {α β : Type} {x : Rendering α} {during : Trail}

private theorem of_keeps (h : ∀ s, (Rendering.leaves (x s)).loader = s.loader) :
    Follows x silent := by
  intro s
  rw [h s]
  exact .nil

private theorem bind {k : α → Rendering β} {rest : α → Trail} (hx : Follows x during)
    (hk : ∀ a, Follows (k a) (rest a)) : Follows (x >>= k) (during.bind x rest) := by
  intro s
  have h := hx s
  change Loads s.loader (during s ++ after x rest s) (Rendering.leaves (EStateM.bind x k s)).loader
  unfold EStateM.bind after
  cases hr : x s with
  | ok a t =>
    rw [hr] at h
    exact h.append (hk a t)
  | error e t =>
    rw [hr] at h
    exact h.append .nil

private theorem after {k : α → Rendering β} {rest : α → Trail} (hx : Follows x silent)
    (hk : ∀ a, Follows (k a) (rest a)) : Follows (x >>= k) (after x rest) :=
  hx.bind hk

private theorem after_silent (x : Rendering α) : (Trail.after x fun _ => silent) = silent := by
  funext s
  unfold Trail.after
  cases x s <;> rfl

private theorem quiet {x : Rendering α} {k : α → Rendering β} (hx : Follows x silent)
    (hk : ∀ a, Follows (k a) silent) : Follows (x >>= k) silent := by
  rw [← after_silent x]
  exact hx.after hk

private theorem located {x : Rendering Unit} (hx : Follows x during) (name : String) (line : Nat) :
    Follows (Rendering.located name line x) during := by
  intro s
  have h := hx s
  unfold Rendering.located
  cases hr : x s with
  | ok a t => rwa [hr] at h
  | error e t =>
    rw [hr] at h
    cases e <;> exact h

private theorem isolated {x : Rendering Unit} (hx : Follows x during) (bindings : Dict Value) :
    Follows (Rendering.isolated bindings x) fun s => during { s with bindings } := by
  intro s
  have h := hx { s with bindings }
  unfold Rendering.isolated
  cases hr : x { s with bindings } <;> rwa [hr] at h

private theorem captured {x : Rendering Unit} (hx : Follows x during)
    (transform : String → String) :
    Follows (Rendering.captured transform x) fun s => during { s with output := #[] } := by
  intro s
  have h := hx { s with output := #[] }
  unfold Rendering.captured
  cases hr : x { s with output := #[] } <;> rwa [hr] at h

private theorem forM {f : α → Rendering Unit} {during : α → Trail}
    (h : ∀ a, Follows (f a) (during a))
    (as : List α) : Follows (as.forM f) (Trail.forM f during as) := by
  induction as with
  | nil => exact of_keeps fun _ => rfl
  | cons a as ih => exact (h a).bind fun _ => ih

private theorem ofEval (r : Except EvalError α) : Follows (Rendering.ofEval r) silent := by
  cases r with
  | ok a => exact of_keeps fun _ => rfl
  | error e => exact of_keeps fun _ => rfl

private theorem value (c : Setting) (f : Formula) : Follows (c.value f) silent :=
  fun s => ofEval _ s

private theorem bindTargets (targets : List String) (unpacks : Bool) (item : Value) :
    Follows (bindTargets targets unpacks item) silent :=
  (ofEval (loopBindings targets unpacks item)).quiet fun _ => of_keeps fun _ => rfl

end Follows

mutual

private theorem Step.follows_run (c : Setting) {inner : Metadata Value → Value → Trail}
    (hc : ∀ m v, Follows (c.insert m v) (inner m v)) :
    ∀ step : Step, Follows (step.run c) (step.trail c inner)
  | .text _ => .of_keeps fun _ => rfl
  | .output f => (Follows.value c f).quiet fun _ => .of_keeps fun _ => rfl
  | .choice clauses none => by
    have hnone : Follows (pure ()) silent := .of_keeps fun _ => rfl
    exact follows_runClauses c hc hnone clauses
  | .choice clauses (some body) =>
    follows_runClauses c hc (follows_runBlock c hc body) clauses
  | .loop targets unpacks f body => by
    have hbody := follows_runBlock c hc body
    have hitem := fun item => (Follows.bindTargets targets unpacks item).after fun _ => hbody
    have hitems := fun v : Value => (Follows.ofEval v.iterate).after (Follows.forM hitem)
    rw [Step.run, Step.trail]
    exact (Follows.value c f).after hitems
  | .insertion f => (Follows.value c f).after (hc c.metadata)
  | .captured _ transform body => (follows_runBlock c hc body).captured transform

private theorem follows_runClauses (c : Setting) {inner : Metadata Value → Value → Trail}
    (hc : ∀ m v, Follows (c.insert m v) (inner m v)) {fallback : Rendering Unit}
    {last : Trail} (hlast : Follows fallback last) :
    ∀ clauses : List (Formula × List (Located Step)),
      Follows (runClauses c fallback clauses) (clausesTrail c inner last clauses)
  | [] => hlast
  | (condition, body) :: rest => by
    have hbody := follows_runBlock c hc body
    have hrest := follows_runClauses c hc hlast rest
    rw [runClauses, clausesTrail]
    refine (Follows.value c condition).after fun v => ?_
    cases v.truthy with
    | true => exact hbody
    | false => exact hrest

private theorem follows_runBlock (c : Setting) {inner : Metadata Value → Value → Trail}
    (hc : ∀ m v, Follows (c.insert m v) (inner m v)) :
    ∀ body : List (Located Step), Follows (runBlock c body) (blockTrail c inner body)
  | [] => .of_keeps fun _ => rfl
  | ⟨line, step⟩ :: rest => by
    have hstep := (Step.follows_run c hc step).located c.name line
    have hrest := follows_runBlock c hc rest
    rw [runBlock, blockTrail]
    exact hstep.bind fun _ => hrest

end

private theorem follows_insertedTemplate (m : Metadata Value) (v : Value) :
    Follows (insertedTemplate m v) (template m v) := by
  cases v with
  | text name =>
    rintro ⟨b, output, loader⟩
    unfold insertedTemplate loadNamed template
    cases loader with
    | none => exact .nil
    | some l =>
      by_cases hm : m.loader = some l.number
      · have hone := Loads.single ⟨name, l⟩
        rw [Ask.left] at hone
        rcases hl : l.load name with ⟨_ | t, l'⟩
        all_goals
          simp only [if_pos hm, hl] at hone ⊢
          exact hone
      · simp only [if_neg hm]
        exact .nil
  | _ => exact .of_keeps fun _ => rfl

private theorem Compiled.follows_runIn {host : Host}
    {insert : Metadata Value → Value → Rendering Unit}
    {inner : Metadata Value → Value → Trail} (hi : ∀ m v, Follows (insert m v) (inner m v))
    (t : Template) (scope : Scope) :
    Follows (t.runIn host insert scope) (t.trailIn host insert inner scope) :=
  (follows_runBlock _ hi t.body).isolated scope.bindings

private theorem follows_insertAt (host : Host) (depth : Nat) (m : Metadata Value) (v : Value) :
    Follows (insertAt host depth m v) (insertionTrail host depth m v) := by
  induction depth generalizing m v with
  | zero => exact .of_keeps fun _ => rfl
  | succ depth ih =>
    rw [insertAt, insertionTrail]
    exact (follows_insertedTemplate m v).bind fun t s => t.follows_runIn ih _ s

namespace Compiled

theorem trail_loads (host : Host) (depth : Nat) (t : Template) (params : Dict Value)
    (loader : Option Loader) :
    Loads loader (t.trail host depth params loader) (t.render host depth params loader).2 := by
  have hrun : Follows (t.runIn host (insertAt host depth) (.ofTemplate t params))
      (t.trailIn host (insertAt host depth) (insertionTrail host depth) (.ofTemplate t params)) :=
    t.follows_runIn (follows_insertAt host depth) _
  have h := hrun ⟨[], #[], loader⟩
  unfold render
  cases hr : t.runIn host (insertAt host depth) (.ofTemplate t params) ⟨[], #[], loader⟩ with
  | ok a s => rwa [hr] at h
  | error halt s =>
    rw [hr] at h
    cases halt <;> exact h

end Compiled

theorem Loader.trail_loads (host : Host) (depth : Nat) (l : Loader) (name : String)
    (params : Dict Value) :
    Loads (some l) (l.trail host depth name params) (l.render host depth name params).2 := by
  apply Loads.cons (a := ⟨name, l⟩)
  unfold Ask.left Loader.render
  rcases l.load name with ⟨_ | t, l'⟩
  · exact .nil
  · exact t.trail_loads host depth params (some l')

end Stencil
