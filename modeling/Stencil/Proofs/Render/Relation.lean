import Stencil.Proofs.Value.Heredity
import Stencil.Render.Basic

/-! # Relations between renders -/

namespace Stencil

namespace Rendering

variable {α β : Type} {S : Stage → Stage → Prop}

/-- Results of one kind, on related stages: related values, or the same reason to stop. -/
inductive Ends (S : Stage → Stage → Prop) (R : α → α → Prop) :
    EStateM.Result Halt Stage α → EStateM.Result Halt Stage α → Prop where
  | ok {a b : α} {s t : Stage} : R a b → S s t → Ends S R (.ok a s) (.ok b t)
  | error (e : Halt) {s t : Stage} : S s t → Ends S R (.error e s) (.error e t)

def Both (P : α → Prop) (a b : α) : Prop :=
  a = b ∧ P a

/-- Actions that cannot be told apart from related stages on. -/
def Relates (S : Stage → Stage → Prop) (R : α → α → Prop) (x y : Rendering α) : Prop :=
  ∀ s t, S s t → Ends S R (x s) (y t)

theorem Relates.pure {R : α → α → Prop} {a b : α} (h : R a b) :
    Relates S R (Pure.pure a) (Pure.pure b) := by
  intro s t hs
  exact .ok h hs

theorem Relates.throw {R : α → α → Prop} (e : Halt) :
    Relates S R (MonadExcept.throw e) (MonadExcept.throw e) := by
  intro s t hs
  exact .error e hs

theorem Relates.bind {R : α → α → Prop} {Q : β → β → Prop} {x y : Rendering α}
    {f g : α → Rendering β} (h : Relates S R x y)
    (hk : ∀ a b, R a b → Relates S Q (f a) (g b)) :
    Relates S Q (x >>= f) (y >>= g) := by
  intro s t hs
  change Ends S Q (EStateM.bind x f s) (EStateM.bind y g t)
  unfold EStateM.bind
  have hx := h s t hs
  generalize x s = r at hx ⊢
  generalize y t = q at hx ⊢
  cases hx with
  | ok hab hst => exact hk _ _ hab _ _ hst
  | error e hst => exact .error e hst

theorem Relates.next {P : α → Prop} {Q : β → β → Prop} {x y : Rendering α} {f : α → Rendering β}
    (h : Relates S (Both P) x y) (hk : ∀ a, P a → Relates S Q (f a) (f a)) :
    Relates S Q (x >>= f) (y >>= f) := by
  refine h.bind ?_
  rintro a _ ⟨rfl, ha⟩
  exact hk a ha

theorem Relates.ofEval {P : α → Prop} {r : Except EvalError α} (h : Yields P r) :
    Relates S (Both P) (ofEval r) (ofEval r) := by
  cases r with
  | ok a => exact .pure ⟨rfl, h a rfl⟩
  | error e => exact .throw _

theorem Relates.located {x y : Rendering Unit} (name : String) (line : Nat)
    (h : Relates S Eq x y) : Relates S Eq (located name line x) (located name line y) := by
  intro s t hs
  have hx := h s t hs
  unfold Rendering.located
  generalize x s = r at hx ⊢
  generalize y t = q at hx ⊢
  cases hx with
  | ok hab hst => exact .ok hab hst
  | error e hst =>
    cases e with
    | failed e => exact .error _ hst
    | tooDeep => exact .error _ hst

theorem Relates.isolated {b c : Dict Value} {x y : Rendering Unit}
    (hin : ∀ {s t}, S s t → S { s with bindings := b } { t with bindings := c })
    (hout : ∀ {s t s' t'}, S s t → S s' t' →
      S { s' with bindings := s.bindings } { t' with bindings := t.bindings })
    (h : Relates S Eq x y) : Relates S Eq (isolated b x) (isolated c y) := by
  intro s t hs
  have hx := h _ _ (hin hs)
  unfold Rendering.isolated
  generalize x { s with bindings := b } = r at hx ⊢
  generalize y { t with bindings := c } = q at hx ⊢
  cases hx with
  | ok hab hst => exact .ok hab (hout hs hst)
  | error e hst => exact .error e (hout hs hst)

theorem Relates.captured {x y : Rendering Unit} (transform : String → String)
    (hin : ∀ {s t}, S s t → S { s with output := #[] } { t with output := #[] })
    (hout : ∀ {s t s' t'}, S s t → S s' t' → ∀ add : Array String → Array String → Array String,
      S ⟨s.bindings, add s.output s'.output, s'.loader⟩
        ⟨t.bindings, add t.output t'.output, t'.loader⟩)
    (h : Relates S Eq x y) : Relates S Eq (captured transform x) (captured transform y) := by
  intro s t hs
  have hx := h _ _ (hin hs)
  unfold Rendering.captured
  generalize x { s with output := #[] } = r at hx ⊢
  generalize y { t with output := #[] } = q at hx ⊢
  cases hx with
  | ok _ hst =>
    exact .ok rfl (hout hs hst fun before after =>
      before.push (transform (String.join after.toList)))
  | error e hst => exact .error e (hout hs hst fun before _ => before)

end Rendering

end Stencil
