import Stencil.Proofs.Value.Dict
import Stencil.Render.Basic

/-!
# Metadata laid over metadata

Where templates are inserted into one another, their metadata is laid over that around them, extra
metadata with it. However it is put together, the result is that of laying it down one by one.
-/

namespace Stencil

namespace Metadata

variable {α : Type}

private theorem overlay_assoc (a : Metadata α) {b : Metadata α} (hb : (Dict.keys b.globals).Nodup)
    (c : Metadata α) : (a.overlay b).overlay c = a.overlay (b.overlay c) := by
  simp only [overlay, Dict.extend_extend a.globals hb, Option.or_assoc]

def stack (base : Metadata α) (layers : List (Metadata α)) : Metadata α :=
  layers.foldl overlay base

private theorem stack_append (base : Metadata α) (layers more : List (Metadata α)) :
    base.stack (layers ++ more) = (base.stack layers).stack more :=
  List.foldl_append

end Metadata

namespace Scope

/-- The scopes that are made inside a scope, with the metadata laid over it on the way. -/
inductive Inside (s : Scope) : List (Metadata Value) → Scope → Prop where
  | here : Inside s [] s
  | bind {layers u} (name : String) (v : Value) : Inside s layers u →
      Inside s layers (u.bind name v)
  | inner {layers u} (bindings : Dict Value) (m : Metadata Value) : Inside s layers u →
      Inside s (layers ++ [m]) (u.inner bindings m)
  | inserted {layers u t} (extra : Option (Metadata Value)) : Inside s layers u →
      (Dict.keys t.metadata.globals).Nodup →
      Inside s (layers ++ t.metadata :: extra.toList) (u.inserted t extra)

variable {s u : Scope} {layers : List (Metadata Value)} {t : Template}

private theorem inserted_metadata (s : Scope) (ht : (Dict.keys t.metadata.globals).Nodup)
    (extra : Option (Metadata Value)) :
    (s.inserted t extra).metadata = s.metadata.stack (t.metadata :: extra.toList) := by
  cases extra with
  | none => rfl
  | some x => exact (s.metadata.overlay_assoc ht x).symm

private theorem Inside.metadata (h : s.Inside layers u) : u.metadata = s.metadata.stack layers := by
  induction h with
  | here => rfl
  | bind name v _ ih => exact ih
  | inner bindings m _ ih =>
    rw [Metadata.stack_append, ← ih]
    rfl
  | inserted extra _ ht ih => rw [inserted_metadata _ ht, Metadata.stack_append, ih]

end Scope

namespace Setting

def fixed (c : Setting) : Setting :=
  { c with insert := fun _ => c.insert c.metadata }

mutual

private theorem step_fixed (c : Setting) : ∀ step : Step, step.run c.fixed = step.run c
  | .text _ => rfl
  | .output _ => rfl
  | .choice clauses none => clauses_fixed c (pure ()) clauses
  | .choice clauses (some body) => by
    rw [Step.run, Step.run, block_fixed c body]
    exact clauses_fixed c _ clauses
  | .loop targets unpacks f body => by
    rw [Step.run, Step.run, block_fixed c body]
    rfl
  | .insertion _ => rfl
  | .captured _ transform body => by rw [Step.run, Step.run, block_fixed c body]

private theorem clauses_fixed (c : Setting) (fallback : Rendering Unit) :
    ∀ clauses : List (Formula × List (Located Step)),
      runClauses c.fixed fallback clauses = runClauses c fallback clauses
  | [] => rfl
  | (condition, body) :: rest => by
    rw [runClauses, runClauses, block_fixed c body, clauses_fixed c fallback rest]
    rfl

private theorem block_fixed (c : Setting) : ∀ body : List (Located Step),
    runBlock c.fixed body = runBlock c body
  | [] => rfl
  | ⟨line, step⟩ :: rest => by
    rw [runBlock, runBlock, step_fixed c step, block_fixed c rest]
    rfl

end

end Setting

/-- Executes a template where layers lie over metadata; `insert` is how it inserts others there. -/
def Compiled.runOver (host : Host) (p : Metadata Value)
    (insert : List (Metadata Value) → Value → Rendering Unit) (t : Template)
    (bindings : Dict Value) (layers : List (Metadata Value)) : Rendering Unit :=
  Rendering.isolated bindings
    (runBlock ⟨t.name, p.stack layers, host, fun _ => insert layers⟩ t.body)

/-- Inserts the template that a value stands for where layers lie over metadata. They are kept
apart, and the template adds its own. -/
def insertOver (host : Host) (p : Metadata Value) :
    Nat → List (Metadata Value) → Value → Rendering Unit
  | 0, _, _ => throw .tooDeep
  | depth + 1, layers, v => do
    let t ← insertedTemplate (p.stack layers) v
    fun s => t.runOver host p (insertOver host p depth)
      (Dict.extend s.bindings (Dict.extend t.defaults s.bindings)) (layers ++ [t.metadata]) s

private theorem runIn_eq_runOver {host : Host} {p : Metadata Value}
    {insert : Metadata Value → Value → Rendering Unit}
    {layered : List (Metadata Value) → Value → Rendering Unit} {layers : List (Metadata Value)}
    (h : insert (p.stack layers) = layered layers) (t : Template) (bindings : Dict Value) :
    t.runIn host insert ⟨bindings, p.stack layers⟩ = t.runOver host p layered bindings layers := by
  rw [Compiled.runIn, Compiled.runOver, ← Setting.block_fixed, ← h]
  rfl

private theorem insertAt_stack (host : Host) (p : Metadata Value) (depth : Nat)
    (layers : List (Metadata Value)) :
    insertAt host depth (p.stack layers) = insertOver host p depth layers := by
  -- An inserted template adds a layer, so the layers vary along the induction.
  induction depth generalizing layers with
  | zero => rfl
  | succ depth ih =>
    funext v
    rw [insertAt, insertOver]
    congr 1
    funext t s
    have hmetadata : (p.stack layers).overlay t.metadata = p.stack (layers ++ [t.metadata]) :=
      (p.stack_append layers [t.metadata]).symm
    rw [Compiled.runInserted, Scope.inserted, Scope.inner, hmetadata,
      runIn_eq_runOver (ih (layers ++ [t.metadata]))]

/-- It does not matter how metadata is put together that is laid over other metadata; globals have
distinct names. A template that is inserted with extra metadata sees that around it, its own laid
over it and then the extra metadata, however deep it is inside other insertions, and so on for those
it inserts. -/
theorem overlay_grouping (a : Metadata Value) {b : Metadata Value}
    (hb : (Dict.keys b.globals).Nodup) (c : Metadata Value) {s u : Scope}
    {layers : List (Metadata Value)} (hu : s.Inside layers u) {t : Template}
    (ht : (Dict.keys t.metadata.globals).Nodup) (extra : Metadata Value) (host : Host)
    (depth : Nat) :
    (a.overlay b).overlay c = a.overlay (b.overlay c) ∧
    (u.inserted t (some extra)).metadata = (u.metadata.overlay t.metadata).overlay extra ∧
    (u.inserted t (some extra)).metadata = s.metadata.stack (layers ++ [t.metadata, extra]) ∧
    t.runIn host (insertAt host depth) (u.inserted t (some extra)) =
      t.runOver host s.metadata (insertOver host s.metadata depth)
        (u.inserted t (some extra)).bindings (layers ++ [t.metadata, extra]) := by
  have hstack : (u.inserted t (some extra)).metadata =
      s.metadata.stack (layers ++ [t.metadata, extra]) :=
    (hu.inserted (some extra) ht).metadata
  refine ⟨a.overlay_assoc hb c, u.inserted_metadata ht (some extra), hstack, ?_⟩
  have hinsert := insertAt_stack host s.metadata depth (layers ++ [t.metadata, extra])
  rw [← runIn_eq_runOver hinsert, ← hstack]

/-- A template inside another, inserted into itself with extra metadata. -/
theorem overlay_grouping_extra :
    let host : Host := fun _ _ => .error .overflow
    let page : Metadata Value := ⟨"page", none, some 1, [("g", .text "page"), ("h", .text "page")]⟩
    let part : Metadata Value := ⟨"part", none, some 2, [("k", .text "part"), ("g", .text "part")]⟩
    let extra : Metadata Value := ⟨"extra", none, none, [("k", .text "extra")]⟩
    let t : Template := ⟨[], [], part, 0⟩
    let s : Scope := ⟨[], page⟩
    let sub := (s.inserted t none).inserted t (some extra)
    (Dict.keys part.globals).Nodup ∧ s.Inside [part] (s.inserted t none) ∧
      (page.overlay part).overlay extra = page.overlay (part.overlay extra) ∧
      sub.metadata = ((page.overlay part).overlay part).overlay extra ∧
      sub.metadata.loader = some 2 ∧ sub.lookup "g" = some (.text "part") ∧
      sub.lookup "h" = some (.text "page") ∧ sub.lookup "k" = some (.text "extra") ∧
      sub.lookup "__name__" = some (.text "extra") ∧
      t.runIn host (insertAt host 1) sub =
        t.runOver host page (insertOver host page 1) sub.bindings [part, part, extra] := by
  intro host page part extra t s sub
  have hnodup : (Dict.keys part.globals).Nodup := by simp [Dict.keys, part]
  have hinside : s.Inside [part] (s.inserted t none) := .inserted (t := t) none .here hnodup
  obtain ⟨hassoc, hsub, -, hrun⟩ :=
    overlay_grouping page hnodup extra hinside (t := t) hnodup extra host 1
  exact ⟨hnodup, hinside, hassoc, hsub, rfl, rfl, rfl, rfl, rfl, hrun⟩

end Stencil
