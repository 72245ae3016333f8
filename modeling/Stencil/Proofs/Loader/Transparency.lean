import Stencil.Proofs.Loader.Caching
import Stencil.Proofs.Render.Induction
import Stencil.Proofs.Render.Relation

/-! # A cache is not seen from outside -/

namespace Stencil

namespace Loader

/-- Loaders over the same sources, whatever their faithful caches keep. -/
structure Agrees (l m : Loader) : Prop where
  alike : l.Matches m
  left : l.Faithful
  right : m.Faithful

theorem Agrees.load {l m : Loader} (h : l.Agrees m) (name : String) :
    (l.load name).1.map Compiled.unnumbered = (m.load name).1.map Compiled.unnumbered ∧
      (l.load name).2.Agrees (m.load name).2 := by
  obtain ⟨hl, hlm, hlf⟩ := load_spec h.left name
  obtain ⟨hm, hmm, hmf⟩ := load_spec h.right name
  refine ⟨?_, (hlm.trans h.alike).trans hmm.symm, hlf, hmf⟩
  rw [hl, hm, h.alike.afresh]

private theorem Agrees.clear {l m : Loader} (h : l.Agrees m) : l.clear.Agrees m.clear :=
  ⟨⟨h.alike.number, h.alike.dialect, h.alike.sources⟩, faithful_clear l, faithful_clear m⟩

end Loader

structure Stage.Agrees (s t : Stage) : Prop where
  bindings : s.bindings = t.bindings
  output : s.output = t.output
  loaders : ∃ l m, s.loader = some l ∧ t.loader = some m ∧ l.Agrees m

namespace Rendering

/-- An action that does not see what is cached. -/
def Blind (x : Rendering Unit) : Prop :=
  Relates Stage.Agrees Eq x x

private theorem blind_write (text : String) : Blind (write text) := by
  intro s t h
  have ho : s.output.push text = t.output.push text := by rw [h.output]
  exact .ok rfl ⟨h.bindings, ho, h.loaders⟩

private theorem blind_bindAll (bindings : List (String × Value)) : Blind (bindAll bindings) := by
  intro s t h
  have hb : s.bindings.extend bindings = t.bindings.extend bindings := by rw [h.bindings]
  exact .ok rfl ⟨hb, h.output, h.loaders⟩

private theorem blind_isolated (bindings : Dict Value) {x : Rendering Unit} (hx : Blind x) :
    Blind (isolated bindings x) :=
  .isolated (fun h => ⟨rfl, h.output, h.loaders⟩)
    (fun h h' => ⟨h.bindings, h'.output, h'.loaders⟩) hx

private theorem blind_captured (transform : String → String) {x : Rendering Unit} (hx : Blind x) :
    Blind (captured transform x) := by
  refine .captured transform (fun h => ⟨h.bindings, rfl, h.loaders⟩) (fun h h' add => ?_) hx
  exact ⟨h.bindings, by rw [h.output, h'.output], h'.loaders⟩

end Rendering

open Rendering

theorem closed_blind : Closed Blind where
  nothing := .pure rfl
  write := blind_write
  bindAll := blind_bindAll
  seq hx hy := .bind hx fun _ _ _ => hy
  ofEval r hk := .next (.ofEval (.any r)) fun a _ => hk a
  reading hk := by
    rintro ⟨b, _, _⟩ ⟨_, _, _⟩ h
    obtain rfl := h.bindings
    exact hk b _ _ h
  located name line hx := .located name line hx
  isolated bindings hx := blind_isolated bindings hx
  captured transform hx := blind_captured transform hx

def Compiled.Resembles {α : Type} (t u : Compiled α) : Prop :=
  t.unnumbered = u.unnumbered

private theorem loadNamed_relates (m : Metadata Value) (name : String) :
    Relates Stage.Agrees Compiled.Resembles (loadNamed m name) (loadNamed m name) := by
  intro s t h
  obtain ⟨l, k, hl, hk, hlk⟩ := h.loaders
  have hload := hlk.load name
  unfold loadNamed
  rw [hl, hk]
  -- The loaders have one number, so the metadata refers to both of them or to neither.
  simp only [hlk.alike.number]
  split
  · rcases hr : l.load name with ⟨r, l'⟩
    rcases hq : k.load name with ⟨q, k'⟩
    rw [hr, hq] at hload
    obtain ⟨he, ha⟩ := hload
    have hs : Stage.Agrees { s with loader := some l' } { t with loader := some k' } :=
      ⟨h.bindings, h.output, l', k', rfl, rfl, ha⟩
    cases r with
    | error e =>
      cases q with
      | error f =>
        cases he
        exact .error _ hs
      | ok u => cases he
    | ok t =>
      cases q with
      | error f => cases he
      | ok u => exact .ok (Except.ok.inj he) hs
  · exact .error _ h

private theorem insertedTemplate_relates (m : Metadata Value) (v : Value) :
    Relates Stage.Agrees Compiled.Resembles (insertedTemplate m v) (insertedTemplate m v) := by
  cases v with
  | template t => exact .pure rfl
  | text name => exact loadNamed_relates m name
  | _ => exact .throw _

section Insertion

variable {host : Host} {insert : Metadata Value → Value → Rendering Unit}

theorem Compiled.runIn_resembles {t u : Template} (h : t.Resembles u) (scope : Scope) :
    t.runIn host insert scope = u.runIn host insert scope := by
  have he : ∀ t : Template, t.runIn host insert scope = t.unnumbered.runIn host insert scope :=
    fun _ => rfl
  rw [he t, he u, h]

theorem Scope.ofTemplate_resembles {t u : Template} (h : t.Resembles u) (params : Dict Value) :
    Scope.ofTemplate t params = Scope.ofTemplate u params := by
  have he : ∀ t : Template, ofTemplate t params = ofTemplate t.unnumbered params := fun _ => rfl
  rw [he t, he u, h]

private theorem Compiled.runInserted_resembles {t u : Template} (h : t.Resembles u)
    (m : Metadata Value) (extra : Option (Metadata Value)) :
    t.runInserted host insert m extra = u.runInserted host insert m extra := by
  have he : ∀ t : Template,
      t.runInserted host insert m extra = t.unnumbered.runInserted host insert m extra :=
    fun _ => rfl
  rw [he t, he u, h]

end Insertion

/-- Insertions are blind however deep they go: the template they load is the cached one or a fresh
one, which render alike, and what it inserts goes less deep. -/
theorem blind_insertAt (host : Host) (depth : Nat) (m : Metadata Value) (v : Value) :
    Blind (insertAt host depth m v) := by
  induction depth generalizing m v with
  | zero => exact .throw _
  | succ depth ih =>
    rw [insertAt]
    refine .bind (insertedTemplate_relates m v) ?_
    intro t u htu
    rw [Compiled.runInserted_resembles htu]
    exact closed_blind.runInserted ih u m none

theorem Compiled.render_agrees {l m : Loader} (h : l.Agrees m) (host : Host) (depth : Nat)
    (t : Template) (params : Dict Value) :
    (t.render host depth params (some l)).1 = (t.render host depth params (some m)).1 ∧
      ∃ l' m', (t.render host depth params (some l)).2 = some l' ∧
        (t.render host depth params (some m)).2 = some m' ∧ l'.Agrees m' := by
  have hblind : Blind (t.runIn host (insertAt host depth) (.ofTemplate t params)) :=
    closed_blind.runIn (blind_insertAt host depth) t _
  have hb := hblind ⟨[], #[], some l⟩ ⟨[], #[], some m⟩ ⟨rfl, rfl, l, m, rfl, rfl, h⟩
  unfold render
  generalize t.runIn host (insertAt host depth) (.ofTemplate t params)
    ⟨[], #[], some l⟩ = x at hb ⊢
  generalize t.runIn host (insertAt host depth) (.ofTemplate t params)
    ⟨[], #[], some m⟩ = y at hb ⊢
  cases hb with
  | ok _ hst =>
    refine ⟨?_, hst.loaders⟩
    simp only [hst.output]
  | error halt hst =>
    cases halt with
    | failed e => exact ⟨rfl, hst.loaders⟩
    | tooDeep => exact ⟨rfl, hst.loaders⟩

private theorem Compiled.render_resembles {t u : Template} (h : t.Resembles u) (host : Host)
    (depth : Nat) (params : Dict Value) (loader : Option Loader) :
    t.render host depth params loader = u.render host depth params loader := by
  simp only [render, runIn_resembles h, Scope.ofTemplate_resembles h]

namespace Loader

private theorem Agrees.render {l m : Loader} (h : l.Agrees m) (host : Host) (depth : Nat)
    (name : String) (params : Dict Value) :
    (l.render host depth name params).1 = (m.render host depth name params).1 ∧
      ∃ l' m', (l.render host depth name params).2 = some l' ∧
        (m.render host depth name params).2 = some m' ∧ l'.Agrees m' := by
  have hload := h.load name
  unfold Loader.render
  rcases hr : l.load name with ⟨r, l'⟩
  rcases hq : m.load name with ⟨q, m'⟩
  rw [hr, hq] at hload
  obtain ⟨he, ha⟩ := hload
  cases r with
  | error e =>
    cases q with
    | error f =>
      cases he
      exact ⟨rfl, l', m', rfl, rfl, ha⟩
    | ok u => cases he
  | ok t =>
    cases q with
    | error f => cases he
    | ok u =>
      have htu : t.Resembles u := Except.ok.inj he
      simp only [Compiled.render_resembles htu]
      exact Compiled.render_agrees ha host depth u params

/-- What is asked of a loader. A render may insert at most `depth` deep. -/
inductive Operation where
  | load (name : String)
  | render (name : String) (params : Dict Value) (depth : Nat)
  | clear

/-- What an operation shows: the template that was loaded, but for its serial number, or the
outcome of a render, or nothing. -/
inductive Report where
  | loaded (result : Except TemplateError Template)
  | rendered (outcome : Outcome)
  | cleared

def perform (host : Host) (l : Loader) : Operation → Report × Loader
  | .load name =>
    match l.load name with
    | (result, l) => (.loaded (result.map Compiled.unnumbered), l)
  | .render name params depth =>
    match l.render host depth name params with
    | (outcome, left) => (.rendered outcome, left.getD l)
  | .clear => (.cleared, l.clear)

def reports (host : Host) : Loader → List Operation → List Report
  | _, [] => []
  | l, operation :: rest =>
    match l.perform host operation with
    | (report, l) => report :: reports host l rest

private theorem Agrees.perform {l m : Loader} (h : l.Agrees m) (host : Host)
    (operation : Operation) :
    (l.perform host operation).1 = (m.perform host operation).1 ∧
      (l.perform host operation).2.Agrees (m.perform host operation).2 := by
  cases operation with
  | load name =>
    obtain ⟨he, ha⟩ := h.load name
    refine ⟨?_, ha⟩
    simp only [Loader.perform, he]
  | render name params depth =>
    obtain ⟨he, l', m', hl, hm, ha⟩ := h.render host depth name params
    simp only [Loader.perform, he, hl, hm, Option.getD_some]
    exact ⟨trivial, ha⟩
  | clear => exact ⟨rfl, h.clear⟩

private theorem Agrees.reports {l m : Loader} (h : l.Agrees m) (host : Host)
    (operations : List Operation) : l.reports host operations = m.reports host operations := by
  induction operations generalizing l m with
  | nil => rfl
  | cons operation rest ih =>
    obtain ⟨he, ha⟩ := h.perform host operation
    simp only [Loader.reports, he, ih ha]

/-- Operations show the same whether nothing is cached or a cache of any capacity, zero being
without bound, starts out empty. -/
theorem reports_cache_independent (host : Host) (number serial serial' capacity : Nat)
    (dialect : Dialect) (sources : List Source) (operations : List Operation) :
    reports host ⟨number, dialect, sources, .recent (.empty capacity), serial⟩ operations =
      reports host ⟨number, dialect, sources, .off, serial'⟩ operations := by
  have h : Agrees ⟨number, dialect, sources, .recent (.empty capacity), serial⟩
      ⟨number, dialect, sources, .off, serial'⟩ := by
    refine ⟨⟨rfl, rfl, rfl⟩, ?_, ?_⟩
    · intro name t ht
      exact (Cache.not_holds_empty capacity name t ht).elim
    · intro name t ht
      exact ht.elim
  exact h.reports host operations

end Loader

end Stencil
