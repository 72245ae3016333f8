import Stencil.Proofs.Loader.Insertion
import Stencil.Proofs.Render.Names
import Stencil.Proofs.Render.Relation

/-!
# Only mentioned names matter

Renders cannot be told apart that start from the same values under all names that can be mentioned:
bindings are looked at by evaluating expressions only, and what is bound or inserted on the way came
from such values, from the globals or from the loader.
-/

namespace Stencil

open Rendering

structure Loader.Within (N : Set String) (l : Loader) : Prop where
  faithful : l.Faithful
  names : ∀ name t, l.afresh name = .ok t → t.NamesIn N

/-- Stages that differ under names outside of a set only. -/
structure Stage.AgreeOn (N : Set String) (s t : Stage) : Prop where
  bindings : Dict.AgreeOn N s.bindings t.bindings
  output : s.output = t.output
  loader : s.loader = t.loader
  loads : ∀ l, s.loader = some l → l.Within N

namespace Rendering

def Minds (N : Set String) (x : Rendering Unit) : Prop :=
  Relates (Stage.AgreeOn N) Eq x x

section Actions

variable {N : Set String} {x y : Rendering Unit}

private theorem minds_write (text : String) : Minds N (write text) := by
  intro s t h
  have ho : s.output.push text = t.output.push text := by rw [h.output]
  exact .ok rfl ⟨h.bindings, ho, h.loader, h.loads⟩

private theorem minds_bindAll {bindings : Dict Value} (hb : Dict.Within N bindings) :
    Minds N (bindAll bindings) := by
  intro s t h
  exact .ok rfl ⟨h.bindings.extend (.refl hb), h.output, h.loader, h.loads⟩

private theorem minds_seq (hx : Minds N x) (hy : Minds N y) : Minds N (do x; y) :=
  hx.bind fun _ _ _ => hy

private theorem minds_forM {α : Type} {f : α → Rendering Unit} {as : List α}
    (hf : ∀ a ∈ as, Minds N (f a)) : Minds N (as.forM f) := by
  induction as with
  | nil => exact .pure rfl
  | cons a as ih =>
    obtain ⟨hfirst, hrest⟩ := List.forall_mem_cons.mp hf
    exact minds_seq hfirst (ih hrest)

private theorem relates_isolated {b c : Dict Value} (hb : Dict.AgreeOn N b c) (hx : Minds N x) :
    Relates (Stage.AgreeOn N) Eq (isolated b x) (isolated c x) :=
  .isolated (fun h => ⟨hb, h.output, h.loader, h.loads⟩)
    (fun h h' => ⟨h.bindings, h'.output, h'.loader, h'.loads⟩) hx

private theorem minds_captured (transform : String → String) (hx : Minds N x) :
    Minds N (captured transform x) := by
  refine .captured transform (fun h => ⟨h.bindings, rfl, h.loader, h.loads⟩)
    (fun h h' add => ?_) hx
  exact ⟨h.bindings, by rw [h.output, h'.output], h'.loader, h'.loads⟩

private theorem minds_bindTargets (targets : List String) (unpacks : Bool) {item : Value}
    (hi : item.Within N) : Minds N (bindTargets targets unpacks item) :=
  (Relates.ofEval (loopBindings_yields (Value.within_hereditary N) targets unpacks hi)).next
    fun _ hb => minds_bindAll hb

end Actions

end Rendering

/-- Metadata, functions and insertions that stay within a set of names. -/
structure Setting.Within (N : Set String) (c : Setting) : Prop where
  host : c.host.AddsNoTemplates
  globals : Dict.Within N c.metadata.globals
  insert : ∀ v, v.Within N → Minds N (c.insert c.metadata v)

namespace Setting.Within

variable {N : Set String} {c : Setting}

private theorem lookup (hc : c.Within N) {d e : Dict Value} (h : Dict.AgreeOn N d e) {x : String}
    (hx : x ∈ N) :
    (c.environment d).lookup x = (c.environment e).lookup x ∧
      ∀ v, (c.environment d).lookup x = some v → v.Within N := by
  have hd : (c.environment d).lookup x = (Dict.get? x d).or (c.metadata.get? x) :=
    Scope.lookup_eq ⟨d, c.metadata⟩ x
  have he : (c.environment e).lookup x = (Dict.get? x e).or (c.metadata.get? x) :=
    Scope.lookup_eq ⟨e, c.metadata⟩ x
  rw [hd, he, h.get? hx]
  refine ⟨rfl, fun v hv => ?_⟩
  rcases Option.or_eq_some_iff.mp hv with hv | ⟨-, hv⟩
  · exact h.within hx ((h.get? hx).trans hv)
  · unfold Metadata.get? at hv
    split at hv
    · next hg =>
      cases hv
      exact hc.globals _ (Dict.mem_of_get? hg)
    · split at hv
      · cases hv
        exact (Value.within_hereditary N).text _
      · cases hv

private theorem value (hc : c.Within N) {f : Formula} (hf : ∀ x ∈ f.tree.names, x ∈ N) :
    Relates (Stage.AgreeOn N) (Both (Value.Within N)) (c.value f) (c.value f) := by
  intro s t h
  have hhost : (c.environment s.bindings).host = (c.environment t.bindings).host := rfl
  have heval : f.tree.eval (c.environment s.bindings) = f.tree.eval (c.environment t.bindings) :=
    Expr.eval_congr hhost f.tree fun x hx => (hc.lookup h.bindings (hf x hx)).1
  have hyields : Yields (Value.Within N) (f.tree.eval (c.environment s.bindings)) :=
    Expr.eval_yields (Value.within_hereditary N) hc.host.yields f.tree
      fun x hx => (hc.lookup h.bindings (hf x hx)).2
  unfold Setting.value
  rw [← heval]
  exact Relates.ofEval hyields s t h

mutual

private theorem step (hc : c.Within N) :
    ∀ step : Step, (∀ x ∈ step.names, x ∈ N) → Minds N (step.run c)
  | .text content, _ => minds_write content
  | .output f, hn => (hc.value hn).next fun v _ => minds_write (c.escaped v)
  | .choice clauses none, hn => hc.clauses (.pure rfl) clauses hn
  | .choice clauses (some body), hn => by
    obtain ⟨hclauses, hbody⟩ := List.forall_mem_append.mp hn
    exact hc.clauses (hc.block body hbody) clauses hclauses
  | .loop targets unpacks f body, hn => by
    obtain ⟨hf, hb⟩ := List.forall_mem_append.mp hn
    have hbody := hc.block body hb
    rw [Step.run]
    refine (hc.value hf).next fun v hv => ?_
    refine (Relates.ofEval ((Value.within_hereditary N).iterate hv)).next fun items hitems => ?_
    exact minds_forM fun item hi =>
      minds_seq (minds_bindTargets targets unpacks (hitems item hi)) hbody
  | .insertion f, hn => (hc.value hn).next hc.insert
  | .captured _ transform body, hn => minds_captured transform (hc.block body hn)

private theorem clauses (hc : c.Within N) {fallback : Rendering Unit} (hlast : Minds N fallback) :
    ∀ clauses : List (Formula × List (Located Step)), (∀ x ∈ clauseNames clauses, x ∈ N) →
      Minds N (runClauses c fallback clauses)
  | [], _ => hlast
  | (condition, body) :: rest, hn => by
    obtain ⟨hcondition, hn⟩ := List.forall_mem_append.mp hn
    obtain ⟨hb, hr⟩ := List.forall_mem_append.mp hn
    have hbody := hc.block body hb
    have hrest := hc.clauses hlast rest hr
    rw [runClauses]
    refine (hc.value hcondition).next fun v _ => ?_
    cases v.truthy with
    | true => exact hbody
    | false => exact hrest

private theorem block (hc : c.Within N) :
    ∀ body : List (Located Step), (∀ x ∈ blockNames body, x ∈ N) → Minds N (runBlock c body)
  | [], _ => .pure rfl
  | ⟨line, step⟩ :: rest, hn => by
    obtain ⟨hs, hr⟩ := List.forall_mem_append.mp hn
    have hstep := (hc.step step hs).located c.name line
    have hrest := hc.block rest hr
    rw [runBlock]
    exact minds_seq hstep hrest

end

end Setting.Within

section Insertion

variable {N : Set String} {host : Host}

private theorem Loader.Within.load {l : Loader} (h : l.Within N) (name : String) :
    Yields (Compiled.Within N) (l.load name).1 ∧ (l.load name).2.Within N := by
  obtain ⟨hspec, hmatches, hfaithful⟩ := load_spec h.faithful name
  refine ⟨fun t ht => ?_, hfaithful, fun key u hu => h.names key u ?_⟩
  · obtain ⟨hdefaults, hmetadata⟩ := load_eq_ok h.faithful ht
    rw [ht] at hspec
    refine ⟨h.names name t.unnumbered hspec.symm, ?_, ?_⟩
    · rw [hdefaults]
      exact fun _ he => (List.not_mem_nil he).elim
    · rw [hmetadata]
      exact fun _ he => (List.not_mem_nil he).elim
  · rw [← hmatches.afresh]
    exact hu

private theorem loadNamed_minds (m : Metadata Value) (name : String) :
    Relates (Stage.AgreeOn N) (Both (Compiled.Within N)) (loadNamed m name) (loadNamed m name) := by
  intro s t h
  unfold loadNamed
  rw [← h.loader]
  cases hl : s.loader with
  | none => exact .error _ h
  | some l =>
    dsimp only
    split
    · obtain ⟨ht, hw⟩ := (h.loads l hl).load name
      rcases hr : l.load name with ⟨r, l'⟩
      rw [hr] at ht hw
      have hs : Stage.AgreeOn N { s with loader := some l' } { t with loader := some l' } := by
        refine ⟨h.bindings, h.output, rfl, fun k hk => ?_⟩
        cases hk
        exact hw
      cases r with
      | ok u => exact .ok ⟨rfl, ht u rfl⟩ hs
      | error e => exact .error _ hs
    · exact .error _ h

private theorem insertedTemplate_minds (m : Metadata Value) {v : Value} (hv : v.Within N) :
    Relates (Stage.AgreeOn N) (Both (Compiled.Within N)) (insertedTemplate m v)
      (insertedTemplate m v) := by
  cases v with
  | template t => exact .pure ⟨rfl, Value.within_template.mp hv⟩
  | text name => exact loadNamed_minds m name
  | _ => exact .throw _

private theorem Compiled.Within.runInserted {insert : Metadata Value → Value → Rendering Unit}
    (hhost : host.AddsNoTemplates)
    (hi : ∀ m v, Dict.Within N m.globals → v.Within N → Minds N (insert m v)) {t : Template}
    (ht : t.Within N) {m : Metadata Value} (hm : Dict.Within N m.globals) :
    Minds N (t.runInserted host insert m none) := by
  intro s u h
  let c : Setting := ⟨t.name, m.overlay t.metadata, host, insert⟩
  have hglobals : Dict.Within N (m.overlay t.metadata).globals := hm.extend ht.globals
  have hc : c.Within N := ⟨hhost, hglobals, fun v hv => hi _ v hglobals hv⟩
  have hown : Dict.AgreeOn N (Dict.extend t.defaults s.bindings)
      (Dict.extend t.defaults u.bindings) := .extend (.refl ht.defaults) h.bindings
  exact relates_isolated (h.bindings.extend hown) (hc.block t.body ht.names) s u h

private theorem minds_insertAt (hhost : host.AddsNoTemplates) (depth : Nat) {m : Metadata Value}
    {v : Value}
    (hm : Dict.Within N m.globals) (hv : v.Within N) : Minds N (insertAt host depth m v) := by
  -- A template looks at nothing but its names and what it inserts, which goes one less deep.
  induction depth generalizing m v with
  | zero => exact .throw _
  | succ depth ih =>
    rw [insertAt]
    exact (insertedTemplate_minds m hv).next fun t ht =>
      ht.runInserted hhost (fun _ _ => ih) hm

private theorem Compiled.Within.render (hhost : host.AddsNoTemplates) (depth : Nat) {t : Template}
    (ht : t.Within N) {params params' : Dict Value}
    (hparams : Dict.AgreeOn N (Dict.extend t.defaults params) (Dict.extend t.defaults params'))
    {loader : Option Loader} (hloader : ∀ l, loader = some l → l.Within N) :
    t.render host depth params loader = t.render host depth params' loader := by
  let c : Setting := ⟨t.name, t.metadata, host, insertAt host depth⟩
  have hc : c.Within N :=
    ⟨hhost, ht.globals, fun v hv => minds_insertAt hhost depth ht.globals hv⟩
  have halone : Minds N (t.alone host depth) := hc.block t.body ht.names
  have hends := halone ⟨Dict.extend t.defaults params, #[], loader⟩
    ⟨Dict.extend t.defaults params', #[], loader⟩ ⟨hparams, rfl, rfl, hloader⟩
  rw [render_eq, render_eq]
  generalize t.alone host depth ⟨Dict.extend t.defaults params, #[], loader⟩ = r at hends ⊢
  generalize t.alone host depth ⟨Dict.extend t.defaults params', #[], loader⟩ = q at hends ⊢
  cases hends with
  | ok _ hst => simp only [hst.output, hst.loader]
  | error halt hst => cases halt <;> simp only [hst.loader]

end Insertion

/-- A loader over sources that stay gives the templates only that it gave at first. -/
private theorem Loader.Becomes.within {N : Set String} {host : Host} {start l : Loader}
    (h : start.Becomes host l) (hempty : start.clear = start)
    (hnames : ∀ name t, (start.load name).1 = .ok t → t.NamesIn N) : l.Within N := by
  have hfaithful := faithful_of_clear hempty
  have hagrees := h.agrees hfaithful
  refine ⟨hagrees.right, fun name t ht => ?_⟩
  have hspec := (load_spec hfaithful name).1
  rw [hagrees.alike.afresh, ht] at hspec
  cases hr : (start.load name).1 with
  | error e => simp [hr, Except.map] at hspec
  | ok u =>
    rw [hr] at hspec
    obtain rfl : u.unnumbered = t := Except.ok.inj hspec
    exact hnames name u hr

/-- Only mentioned names matter. Where a set has all names in the expressions of a template, of the
templates that can be reached from it or from parameters of those names, and of the templates that
the loader gives, parameters that agree on the set render to the same output or stop for the same
error, whatever the loader has done before. -/
theorem mentioned_names_matter (host : Host) (hhost : host.AddsNoTemplates) {N : Set String}
    {t : Template} (ht : (Value.template t).Within N) {params params' : Dict Value}
    (hagree : ∀ x ∈ N, Dict.get? x (.ofList params) = Dict.get? x (.ofList params'))
    (hparams : ∀ x ∈ N, ∀ v, Dict.get? x (.ofList params) = some v → v.Within N) (depth : Nat) :
    t.render host depth params none = t.render host depth params' none ∧
    ∀ start l k : Loader, start.clear = start →
      (∀ name u, (start.load name).1 = .ok u → u.NamesIn N) →
      start.Becomes host l → start.Becomes host k →
        (t.render host depth params (some l)).1 = (t.render host depth params' (some k)).1 := by
  have htemplate := Value.within_template.mp ht
  have hbindings := Dict.AgreeOn.settings htemplate.defaults hagree hparams
  refine ⟨htemplate.render hhost depth hbindings nofun, ?_⟩
  intro start l k hempty hnames hl hk
  have hfaithful := Loader.faithful_of_clear hempty
  have hwithin : ∀ l', some l = some l' → l'.Within N := by
    rintro _ ⟨⟩
    exact hl.within hempty hnames
  have hagrees : l.Agrees k := (hl.agrees hfaithful).trans_right (hk.agrees hfaithful)
  rw [htemplate.render hhost depth hbindings hwithin]
  exact (Compiled.render_agrees hagrees host depth t params').1

/-- Where a template inserts what a parameter names, and what it inserts shows another parameter. -/
theorem mentioned_names_matter_inserted :
    let host : Host := fun _ _ => .error .overflow
    let texts : Dict String := [("a", "\x7b% include b %\x7d"), ("b", "\x7b\x7b x \x7d\x7d")]
    let start : Loader := ⟨0, .standard, [.memory texts], .recent (.empty 0), 0⟩
    let params : Dict Value := [("b", .text "b"), ("x", .bool true)]
    let params' : Dict Value := [("y", .none), ("x", .bool true), ("b", .text "b")]
    (start.render host 1 "a" params).1 = .output "True" ∧
    ∃ t, (start.load "a").1 = .ok t ∧
      (t.render host 1 params (some start)).1 =
        (t.render host 1 params' (some (start.load "b").2)).1 := by
  intro host texts start params params'
  let N : Set String := {x | x ∈ ["b", "x"]}
  have hrender : (start.render host 1 "a" params).1 = .output "True" := by decide +kernel
  have hfirst : ((start.load "a").1.map fun t => blockNames t.body) = .ok ["b"] := by
    decide +kernel
  have hsecond : ((start.load "b").1.map fun t => blockNames t.body) = .ok ["x"] := by
    decide +kernel
  have hnames : ∀ name u, (start.load name).1 = .ok u → u.NamesIn N := by
    intro name u hu x hx
    by_cases ha : name = "a"
    · rw [← ha, hu] at hfirst
      have hbody : blockNames u.body = ["b"] := Except.ok.inj hfirst
      rw [hbody] at hx
      exact List.mem_cons.mpr (.inl (List.mem_singleton.mp hx))
    · by_cases hb : name = "b"
      · rw [← hb, hu] at hsecond
        have hbody : blockNames u.body = ["x"] := Except.ok.inj hsecond
        rw [hbody] at hx
        exact List.mem_cons_of_mem _ hx
      · have hnone : (start.load name).1 = .error (.notFound name) := by
          have hmissed : start.load name = start.loadFresh name := Loader.load_missed rfl
          simp [hmissed, start, texts, Loader.loadFresh, Source.firstText, Source.load, Dict.get?,
            Ne.symm ha, Ne.symm hb]
        cases hnone.symm.trans hu
  have hstart : start.Becomes host start := ⟨[], by simp, rfl⟩
  have hafter : start.Becomes host (start.load "b").2 :=
    ⟨[.load "b"], by simp [Request.Steady], rfl⟩
  cases ht : (start.load "a").1 with
  | error e => simp [ht, Except.map] at hfirst
  | ok t =>
    have hwithin := ((hstart.within rfl hnames).load "a").1 t ht
    have hparams : ∀ x ∈ N, ∀ v, Dict.get? x (.ofList params) = some v → v.Within N := by
      intro x hx v hv
      rcases List.mem_cons.mp hx with rfl | hx
      · cases hv
        exact (Value.within_hereditary N).text "b"
      · rw [List.mem_singleton.mp hx] at hv
        cases hv
        exact (Value.within_hereditary N).bool true
    have hagree : ∀ x ∈ N, Dict.get? x (.ofList params) = Dict.get? x (.ofList params') := by
      intro x hx
      rcases List.mem_cons.mp hx with rfl | hx
      · rfl
      · rw [List.mem_singleton.mp hx]
        rfl
    have hhost : host.AddsNoTemplates := by
      intro name args v hv
      cases hv
    exact ⟨hrender, t, rfl, (mentioned_names_matter host hhost (Value.within_template.mpr hwithin)
      hagree hparams 1).2 start start _ rfl hnames hstart hafter⟩

end Stencil
