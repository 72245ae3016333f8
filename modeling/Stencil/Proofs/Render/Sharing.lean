import Stencil.Proofs.Render.Induction
import Stencil.Render.Canvas

/-!
# Contexts that share a buffer

Whatever is done with the contexts of a canvas, all show everything that was written through any of
them, while the bindings of each are what it was made with and what was set in it since.
-/

namespace Stencil

def Stage.below (s : Stage) (pieces : Array String) : Stage :=
  { s with output := pieces ++ s.output }

namespace Rendering

def below {α : Type} (pieces : Array String) :
    EStateM.Result Halt Stage α → EStateM.Result Halt Stage α
  | .ok a s => .ok a (s.below pieces)
  | .error e s => .error e (s.below pieces)

def Appends {α : Type} (x : Rendering α) : Prop :=
  ∀ s pieces, x (s.below pieces) = below pieces (x s)

namespace Appends

variable {α β : Type}

private theorem pure (a : α) : Appends (Pure.pure a) :=
  fun _ _ => rfl

private theorem throw (e : Halt) : Appends (MonadExcept.throw e : Rendering α) :=
  fun _ _ => rfl

private theorem write (text : String) : Appends (write text) := by
  intro s pieces
  have h : (pieces ++ s.output).push text = pieces ++ s.output.push text := by simp
  exact congrArg (fun output => EStateM.Result.ok () { s with output }) h

private theorem bind {x : Rendering α} {k : α → Rendering β} (hx : Appends x)
    (hk : ∀ a, Appends (k a)) :
    Appends (x >>= k) := by
  intro s pieces
  change EStateM.bind x k (s.below pieces) = below pieces (EStateM.bind x k s)
  unfold EStateM.bind
  rw [hx]
  cases x s with
  | ok a t => exact hk a t pieces
  | error e t => rfl

private theorem ofEval (r : Except EvalError α) : Appends (ofEval r) := by
  cases r with
  | ok a => exact .pure a
  | error e => exact .throw _

private theorem located {x : Rendering Unit} (hx : Appends x) (name : String) (line : Nat) :
    Appends (located name line x) := by
  intro s pieces
  unfold Rendering.located
  rw [hx]
  cases x s with
  | ok a t => rfl
  | error e t => cases e <;> rfl

private theorem isolated {x : Rendering Unit} (hx : Appends x) (bindings : Dict Value) :
    Appends (isolated bindings x) := by
  intro s pieces
  unfold Rendering.isolated
  have h := hx { s with bindings } pieces
  change x { s.below pieces with bindings } = _ at h
  rw [h]
  cases x { s with bindings } <;> rfl

private theorem captured (x : Rendering Unit) (transform : String → String) :
    Appends (captured transform x) := by
  intro s pieces
  have hsame : ({ s.below pieces with output := #[] } : Stage) = { s with output := #[] } := rfl
  unfold Rendering.captured
  rw [hsame]
  cases x { s with output := #[] } with
  | ok a t => simp [below, Stage.below]
  | error e t => rfl

private theorem loadNamed (m : Metadata Value) (name : String) : Appends (loadNamed m name) := by
  rintro ⟨b, output, loader⟩ pieces
  unfold Stencil.loadNamed Stage.below
  cases loader with
  | none => rfl
  | some l =>
    by_cases hm : m.loader = some l.number
    · rcases hl : l.load name with ⟨_ | t, l'⟩
      all_goals
        simp only [if_pos hm, hl]
        rfl
    · simp only [if_neg hm]
      rfl

private theorem insertedTemplate (m : Metadata Value) (v : Value) :
    Appends (insertedTemplate m v) := by
  cases v with
  | text name => exact loadNamed m name
  | template t => exact .pure t
  | _ => exact .throw _

end Appends

theorem closed_appends : Closed Appends where
  nothing := .pure ()
  write := .write
  bindAll _ _ _ := rfl
  seq hx hy := hx.bind fun _ => hy
  ofEval r hk := (Appends.ofEval r).bind hk
  reading hk s := hk s.bindings s
  located name line hx := hx.located name line
  isolated bindings hx := hx.isolated bindings
  captured transform _ := .captured _ transform

theorem appends_insertAt (host : Host) (depth : Nat) (m : Metadata Value) (v : Value) :
    Appends (insertAt host depth m v) :=
  closed_appends.insertAt (.throw _) (fun m v _ hk => (Appends.insertedTemplate m v).bind hk) host
    depth m v

private theorem appends_runIn (host : Host) (depth : Nat) (t : Template) (scope : Scope) :
    Appends (t.runIn host (insertAt host depth) scope) :=
  closed_appends.runIn (appends_insertAt host depth) t scope

end Rendering

namespace Canvas

inductive Deed where
  | set (name : String) (v : Value)
  | write (piece : String)
  | lookup (name : String)
  | evaluate (f : Formula)
  | grow (bindings : Dict Value) (m : Metadata Value)
  | insert (t : Template) (extra : Option (Metadata Value)) (depth : Nat)
  | read

structure Act where
  context : Nat
  deed : Deed

def performAt (host : Host) (c : Canvas) (i : Nat) (x : Context) : Deed → Canvas
  | .set name v => c.bind i name v
  | .write piece => c.write x piece
  | .lookup _ => c
  | .evaluate _ => c
  | .grow bindings m => c.grow x bindings m
  | .insert t extra depth => (c.insert host depth x t extra).2
  | .read => c

/-- The canvas after an act. Nothing is done with a context that is not there. -/
def perform (host : Host) (c : Canvas) (act : Act) : Canvas :=
  match c.contexts[act.context]? with
  | some x => c.performAt host act.context x act.deed
  | none => c

/-- What is written with a deed: a template that is inserted writes what it would write to an empty
buffer, until it ends or stops. -/
def writtenAt (host : Host) (c : Canvas) (x : Context) : Deed → List String
  | .write piece => [piece]
  | .insert t extra depth =>
    (Rendering.leaves (t.runIn host (insertAt host depth) (x.scope.inserted t extra)
      ⟨[], #[], c.loader⟩)).output.toList
  | _ => []

def written (host : Host) (c : Canvas) (act : Act) : List String :=
  match c.contexts[act.context]? with
  | some x => c.writtenAt host x act.deed
  | none => []

def run (host : Host) (c : Canvas) (acts : List Act) : Canvas :=
  acts.foldl (perform host) c

def history (host : Host) : Canvas → List Act → List String
  | _, [] => []
  | c, act :: rest => c.written host act ++ history host (c.perform host act) rest

def settings (i : Nat) (acts : List Act) : List (String × Value) :=
  acts.filterMap fun
    | ⟨j, .set name v⟩ => if j = i then some (name, v) else none
    | _ => none

/-- All contexts have the only buffer, with the pieces written so far. -/
structure Shares (c : Canvas) (past : List String) : Prop where
  buffers : c.buffers = [past.toArray]
  contexts : ∀ x ∈ c.contexts, x.buffer = 0

namespace Shares

variable {c : Canvas} {past : List String} {x : Context}

private theorem pieces (h : c.Shares past) (hx : x ∈ c.contexts) : c.pieces x = past.toArray := by
  rw [Canvas.pieces, h.contexts x hx, h.buffers]
  rfl

private theorem text (h : c.Shares past) (hx : x ∈ c.contexts) : c.text x = String.join past := by
  rw [Canvas.text, h.pieces hx]

private theorem fill (h : c.Shares past) (hx : x ∈ c.contexts) (pieces : Array String) :
    (c.fill x (past.toArray ++ pieces)).Shares (past ++ pieces.toList) := by
  have hpieces : past.toArray ++ pieces = (past ++ pieces.toList).toArray :=
    Array.toList_inj.mp (by simp)
  refine ⟨?_, h.contexts⟩
  rw [Canvas.fill, h.contexts x hx, h.buffers, hpieces]
  rfl

private theorem bind (h : c.Shares past) (i : Nat) (name : String) (v : Value) :
    (c.bind i name v).Shares past := by
  refine ⟨h.buffers, ?_⟩
  intro x hx
  obtain ⟨j, hj⟩ := List.mem_iff_getElem?.mp hx
  simp only [Canvas.bind, List.getElem?_modify] at hj
  cases hy : c.contexts[j]? with
  | none => simp [hy] at hj
  | some y =>
    have hbuffer := h.contexts y (List.mem_of_getElem? hy)
    simp only [hy, Option.map_eq_map, Option.map_some, Option.some.injEq] at hj
    rw [← hj]
    split
    · exact hbuffer
    · exact hbuffer

private theorem grow (h : c.Shares past) (hx : x ∈ c.contexts) (bindings : Dict Value)
    (m : Metadata Value) : (c.grow x bindings m).Shares past := by
  refine ⟨h.buffers, ?_⟩
  intro y hy
  rcases List.mem_append.mp hy with hy | hy
  · exact h.contexts y hy
  · rw [List.mem_singleton.mp hy]
    exact h.contexts x hx

private theorem insert (h : c.Shares past) (hx : x ∈ c.contexts) (host : Host) (depth : Nat)
    (t : Template) (extra : Option (Metadata Value)) :
    (c.insert host depth x t extra).2.Shares
      (past ++ c.writtenAt host x (.insert t extra depth)) := by
  have hstage : (⟨[], c.pieces x, c.loader⟩ : Stage) =
      (⟨[], #[], c.loader⟩ : Stage).below past.toArray := by
    simp [Stage.below, h.pieces hx]
  have hrun := Rendering.appends_runIn host depth t (x.scope.inserted t extra)
  simp only [Canvas.insert, writtenAt, hstage, hrun _ past.toArray]
  cases t.runIn host (insertAt host depth) (x.scope.inserted t extra) ⟨[], #[], c.loader⟩ with
  | ok a s =>
    have hfill := h.fill hx s.output
    exact ⟨hfill.buffers, hfill.contexts⟩
  | error halt s =>
    have hfill := h.fill hx s.output
    exact ⟨hfill.buffers, hfill.contexts⟩

private theorem performAt (h : c.Shares past) (host : Host) {i : Nat} (hx : c.contexts[i]? = some x)
    (deed : Deed) : (c.performAt host i x deed).Shares (past ++ c.writtenAt host x deed) := by
  have hmem : x ∈ c.contexts := List.mem_of_getElem? hx
  have hnone : past ++ [] = past := List.append_nil past
  cases deed with
  | set name v => exact hnone.symm ▸ h.bind i name v
  | write piece =>
    have hfill := h.fill hmem #[piece]
    rw [Canvas.performAt, Canvas.write, h.pieces hmem]
    exact hfill
  | lookup name => exact hnone.symm ▸ h
  | evaluate f => exact hnone.symm ▸ h
  | grow bindings m => exact hnone.symm ▸ h.grow hmem bindings m
  | insert t extra depth => exact h.insert hmem host depth t extra
  | read => exact hnone.symm ▸ h

private theorem perform (h : c.Shares past) (host : Host) (act : Act) :
    (c.perform host act).Shares (past ++ c.written host act) := by
  unfold Canvas.perform written
  cases hx : c.contexts[act.context]? with
  | none =>
    rw [List.append_nil]
    exact h
  | some x => exact h.performAt host hx act.deed

private theorem run (h : c.Shares past) (host : Host) (acts : List Act) :
    (c.run host acts).Shares (past ++ c.history host acts) := by
  induction acts generalizing c past with
  | nil =>
    rw [history, List.append_nil]
    exact h
  | cons act rest ih =>
    have hrest := ih (h.perform host act)
    rwa [List.append_assoc] at hrest

end Shares

private def settle (x : Context) (entries : List (String × Value)) : Context :=
  ⟨⟨x.scope.bindings.extend entries, x.scope.metadata⟩, x.buffer⟩

private theorem contexts_perform {c : Canvas} {j : Nat} {x : Context} (hx : c.contexts[j]? = some x)
    (host : Host) (act : Act) :
    (c.perform host act).contexts[j]? = some (settle x (settings j [act])) := by
  obtain ⟨i, deed⟩ := act
  unfold perform
  cases hy : c.contexts[i]? with
  | none =>
    have hij : i ≠ j := by
      rintro rfl
      rw [hy] at hx
      cases hx
    cases deed with
    | set name v => simp [settings, hij, hx, settle, Dict.extend]
    | _ => exact hx
  | some y =>
    cases deed with
    | set name v =>
      by_cases hij : i = j
      · simp [performAt, bind, hij, hx, settings, settle, Dict.extend, Scope.bind]
      · simp [performAt, bind, hij, hx, settings, settle, Dict.extend]
    | grow bindings m =>
      obtain ⟨hj, -⟩ := List.getElem?_eq_some_iff.mp hx
      have hleft : (c.grow y bindings m).contexts[j]? = c.contexts[j]? :=
        List.getElem?_append_left hj
      exact hleft.trans hx
    | insert t extra depth =>
      dsimp only [performAt]
      unfold insert
      cases t.runIn host (insertAt host depth) (y.scope.inserted t extra)
        ⟨[], c.pieces y, c.loader⟩ <;> exact hx
    | _ => exact hx

private theorem contexts_run {c : Canvas} {j : Nat} {x : Context} (hx : c.contexts[j]? = some x)
    (host : Host) (acts : List Act) :
    (c.run host acts).contexts[j]? = some (settle x (settings j acts)) := by
  induction acts generalizing c x with
  | nil => exact hx
  | cons act rest ih =>
    have hrest := ih (contexts_perform hx host act)
    have hsettings : settings j (act :: rest) = settings j [act] ++ settings j rest := by
      rw [settings, settings, settings, ← List.filterMap_append]
      rfl
    rw [run, List.foldl_cons, ← run, hrest, hsettings]
    simp only [settle, Dict.extend, List.foldl_append]

private theorem added_perform {host : Host} {c : Canvas} {act : Act} {i : Nat} {y : Context}
    (hnone : c.contexts[i]? = none) (hy : (c.perform host act).contexts[i]? = some y) :
    ∃ j bindings m x, act = ⟨j, .grow bindings m⟩ ∧ c.contexts.length = i ∧
      c.contexts[j]? = some x ∧ y = ⟨x.scope.inner bindings m, x.buffer⟩ := by
  obtain ⟨j, deed⟩ := act
  unfold perform at hy
  cases hx : c.contexts[j]? with
  | none =>
    rw [hx] at hy
    simp [hnone] at hy
  | some x =>
    rw [hx] at hy
    cases deed with
    | set name v => simp [performAt, bind, List.getElem?_modify, hnone] at hy
    | grow bindings m =>
      have hlength : c.contexts.length ≤ i := List.getElem?_eq_none_iff.mp hnone
      simp only [performAt, grow] at hy
      rw [List.getElem?_append_right hlength, List.getElem?_singleton] at hy
      split at hy
      · cases hy
        exact ⟨j, bindings, m, x, rfl, by omega, hx, rfl⟩
      · cases hy
    | insert t extra depth =>
      dsimp only [performAt] at hy
      unfold insert at hy
      cases hr : t.runIn host (insertAt host depth) (x.scope.inserted t extra)
        ⟨[], c.pieces x, c.loader⟩ <;> simp [hr, fill, hnone] at hy
    | _ => simp [performAt, write, fill, hnone] at hy

private theorem added_run {host : Host} {c : Canvas} {acts : List Act} {i : Nat}
    (hnone : c.contexts[i]? = none) (hi : i < (c.run host acts).contexts.length) :
    ∃ before j bindings m after x, acts = before ++ ⟨j, .grow bindings m⟩ :: after ∧
      (c.run host before).contexts.length = i ∧ (c.run host before).contexts[j]? = some x ∧
      (c.run host acts).contexts[i]? =
        some (settle ⟨x.scope.inner bindings m, x.buffer⟩ (settings i after)) := by
  induction acts generalizing c with
  | nil => exact absurd hi (Nat.not_lt.mpr (List.getElem?_eq_none_iff.mp hnone))
  | cons act rest ih =>
    -- It is made by this act or by a later one.
    cases hy : (c.perform host act).contexts[i]? with
    | none =>
      obtain ⟨before, j, bindings, m, after, x, rfl, hlength, hx, hcontext⟩ := ih hy hi
      exact ⟨act :: before, j, bindings, m, after, x, rfl, hlength, hx, hcontext⟩
    | some y =>
      obtain ⟨j, bindings, m, x, rfl, hlength, hx, rfl⟩ := added_perform hnone hy
      exact ⟨[], j, bindings, m, rest, x, rfl, hlength, hx, contexts_run hy host rest⟩

private theorem shares_start (root : Scope) (loader : Option Loader) :
    (start root loader).Shares [] := by
  refine ⟨rfl, ?_⟩
  intro x hx
  rw [List.mem_singleton.mp hx]

private theorem lookup_settle {c : Canvas} {i : Nat} {x : Context} {entries : List (String × Value)}
    (h : c.contexts[i]? = some (settle x entries)) (name : String) :
    c.lookup i name = (entries.reverse.lookup name).or (x.scope.lookup name) := by
  rw [lookup, h]
  change Scope.lookup ⟨x.scope.bindings.extend entries, x.scope.metadata⟩ name = _
  rw [Scope.lookup_eq, Scope.lookup_eq, Dict.get?_extend, Option.or_assoc]

/-- Whatever is done with contexts that grow from one: at any time all of them show everything that
was written through any of them so far, in order, and a name has the value that was last set in
its own context since that was made, else the one it was made with, the bindings given then lying
over those around it. -/
theorem contexts_share (host : Host) (root : Scope) (loader : Option Loader) (acts : List Act) :
    let c := (start root loader).run host acts
    (∀ x ∈ c.contexts, c.text x = String.join ((start root loader).history host acts)) ∧
    (∀ more, ∀ x ∈ c.contexts, ∀ y ∈ (c.run host more).contexts,
      (c.run host more).text y = c.text x ++ String.join (c.history host more)) ∧
    ∀ i name, i < c.contexts.length →
      (i = 0 ∧
        c.lookup i name = ((settings i acts).reverse.lookup name).or (root.lookup name)) ∨
      ∃ before j bindings m after x, acts = before ++ ⟨j, .grow bindings m⟩ :: after ∧
        ((start root loader).run host before).contexts.length = i ∧
        ((start root loader).run host before).contexts[j]? = some x ∧
        c.lookup i name = ((settings i after).reverse.lookup name).or
          ((bindings.reverse.lookup name).or
            ((x.scope.bindings.get? name).or ((x.scope.metadata.overlay m).get? name))) := by
  intro c
  have hshares : c.Shares _ := (shares_start root loader).run host acts
  refine ⟨?_, ?_, ?_⟩
  · intro x hx
    exact hshares.text hx
  · intro more x hx y hy
    rw [(hshares.run host more).text hy, hshares.text hx, String.join_append]
  · intro i name hi
    cases h0 : (start root loader).contexts[i]? with
    | some x =>
      have hroot : i = 0 ∧ ⟨root, 0⟩ = x := by simpa [start, List.getElem?_singleton] using h0
      obtain ⟨rfl, rfl⟩ := hroot
      exact .inl ⟨rfl, lookup_settle (contexts_run h0 host acts) name⟩
    | none =>
      obtain ⟨before, j, bindings, m, after, x, hacts, hlength, hx, hcontext⟩ := added_run h0 hi
      refine .inr ⟨before, j, bindings, m, after, x, hacts, hlength, hx, ?_⟩
      rw [lookup_settle hcontext, Scope.lookup_eq, Scope.inner, Dict.get?_extend, Option.or_assoc]

/-- An insertion that fails leaves what it wrote, and a name set inside stays inside. -/
example :
    let bad : Template := ⟨[⟨1, .text "b"⟩, ⟨1, .output ⟨"nope", .name "nope"⟩⟩, ⟨1, .text "c"⟩],
      [], .named "bad", 0⟩
    let c := (start ⟨[("x", .text "1")], .named "root"⟩ none).run (fun _ _ => .error .overflow)
      [⟨0, .grow [] (.named "inner")⟩, ⟨1, .write "a"⟩, ⟨0, .insert bad none 1⟩,
        ⟨1, .set "x" (.text "2")⟩, ⟨0, .write "d"⟩]
    c.contexts.map c.text = ["abd", "abd"] ∧
      c.lookup 0 "x" = some (.text "1") ∧ c.lookup 1 "x" = some (.text "2") :=
  ⟨rfl, rfl, rfl⟩

end Canvas

end Stencil
