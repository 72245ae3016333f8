import Stencil.Render.Basic

/-! # Induction over executions -/

namespace Stencil

namespace Rendering

def leaves {α : Type} : EStateM.Result Halt Stage α → Stage
  | .ok _ s => s
  | .error _ s => s

/-- A property of actions that those executing segments are made of have, and that is kept where
they are put together. -/
structure Closed (P : Rendering Unit → Prop) : Prop where
  nothing : P (pure ())
  write : ∀ text, P (write text)
  bindAll : ∀ bindings, P (bindAll bindings)
  seq : ∀ {x y : Rendering Unit}, P x → P y → P (do x; y)
  /-- A fault, or what is done with the result of an evaluation. -/
  ofEval : ∀ {α : Type} {k : α → Rendering Unit} (r : Except EvalError α), (∀ a, P (k a)) →
    P (ofEval r >>= k)
  /-- What is done may depend on the bindings. -/
  reading : ∀ {k : Dict Value → Rendering Unit}, (∀ b, P (k b)) → P fun s => k s.bindings s
  located : ∀ {x : Rendering Unit} (name : String) (line : Nat), P x → P (located name line x)
  isolated : ∀ {x : Rendering Unit} (bindings : Dict Value), P x → P (isolated bindings x)
  captured : ∀ {x : Rendering Unit} (transform : String → String), P x → P (captured transform x)

namespace Closed

variable {P : Rendering Unit → Prop}

private theorem value (h : Closed P) (c : Setting) (f : Formula) {k : Value → Rendering Unit}
    (hk : ∀ v, P (k v)) : P (c.value f >>= k) :=
  h.reading fun b => h.ofEval (f.tree.eval (c.environment b)) hk

private theorem bindTargets (h : Closed P) (targets : List String) (unpacks : Bool) (item : Value) :
    P (bindTargets targets unpacks item) :=
  h.ofEval (loopBindings targets unpacks item) h.bindAll

private theorem forM {α : Type} (h : Closed P) {f : α → Rendering Unit} (hf : ∀ a, P (f a))
    (as : List α) : P (as.forM f) := by
  induction as with
  | nil => exact h.nothing
  | cons a as ih => exact h.seq (hf a) ih

mutual

private theorem step (h : Closed P) {c : Setting} (hc : ∀ m v, P (c.insert m v)) :
    ∀ step : Step, P (step.run c)
  | .text content => h.write content
  | .output f => h.value c f fun v => h.write (c.escaped v)
  | .choice clauses none => h.clauses hc h.nothing clauses
  | .choice clauses (some body) => h.clauses hc (h.block hc body) clauses
  | .loop targets unpacks f body => by
    have hbody := h.block hc body
    have hitem := fun item => h.seq (h.bindTargets targets unpacks item) hbody
    rw [Step.run]
    exact h.value c f fun v => h.ofEval v.iterate fun items => h.forM hitem items
  | .insertion f => h.value c f fun v => hc c.metadata v
  | .captured _ transform body => h.captured transform (h.block hc body)

private theorem clauses (h : Closed P) {c : Setting} (hc : ∀ m v, P (c.insert m v))
    {fallback : Rendering Unit} (hlast : P fallback) :
    ∀ clauses : List (Formula × List (Located Step)), P (runClauses c fallback clauses)
  | [] => hlast
  | (condition, body) :: rest => by
    have hbody := h.block hc body
    have hrest := h.clauses hc hlast rest
    rw [runClauses]
    refine h.value c condition fun v => ?_
    cases v.truthy with
    | true => exact hbody
    | false => exact hrest

theorem block (h : Closed P) {c : Setting} (hc : ∀ m v, P (c.insert m v)) :
    ∀ body : List (Located Step), P (runBlock c body)
  | [] => h.nothing
  | ⟨line, step⟩ :: rest => by
    have hstep := h.located c.name line (h.step hc step)
    have hrest := h.block hc rest
    rw [runBlock]
    exact h.seq hstep hrest

end

section Insertion

variable {host : Host} {insert : Metadata Value → Value → Rendering Unit}

theorem runIn (h : Closed P) (hi : ∀ m v, P (insert m v)) (t : Template) (scope : Scope) :
    P (t.runIn host insert scope) :=
  h.isolated scope.bindings (h.block hi t.body)

theorem runInserted (h : Closed P) (hi : ∀ m v, P (insert m v)) (t : Template)
    (m : Metadata Value) (extra : Option (Metadata Value)) :
    P (t.runInserted host insert m extra) :=
  h.reading fun b => h.runIn hi t (Scope.inserted ⟨b, m⟩ t extra)

end Insertion

/-- Insertions have the property however deep they go, if stopping has it and what is done with a
template that was looked for. -/
theorem insertAt (h : Closed P) (hstop : P (throw .tooDeep))
    (hfound : ∀ m v {k : Template → Rendering Unit}, (∀ t, P (k t)) →
      P (insertedTemplate m v >>= k))
    (host : Host) (depth : Nat) (m : Metadata Value) (v : Value) :
    P (insertAt host depth m v) := by
  induction depth generalizing m v with
  | zero => exact hstop
  | succ depth ih =>
    rw [Stencil.insertAt]
    exact hfound m v fun t => h.runInserted ih t m none

end Closed

end Rendering

end Stencil
