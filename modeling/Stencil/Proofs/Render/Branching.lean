import Stencil.Proofs.Render.Binding
import Stencil.Proofs.Template.Ladder

/-!
# Which block a choice executes

A choice executes the block of its first condition that holds and evaluates nothing behind it.
Written with a choice inside a last block for every further condition it does the same.
-/

namespace Stencil

namespace Rendering

private theorem located_located (name : String) (outer line : Nat) (x : Rendering Unit) :
    located name outer (located name line x) = located name line x := by
  funext s
  unfold located
  rcases x s with ⟨a, t⟩ | ⟨halt, t⟩
  · rfl
  · cases halt with
    | failed e => cases e <;> rfl
    | tooDeep => rfl

private theorem located_bind (name : String) (line : Nat) (x y : Rendering Unit) :
    located name line (x >>= fun _ => y) =
      located name line x >>= fun _ => located name line y := by
  funext s
  change located name line (EStateM.bind x fun _ => y) s =
    EStateM.bind (located name line x) (fun _ => located name line y) s
  unfold located EStateM.bind
  rcases hx : x s with ⟨a, t⟩ | ⟨halt, t⟩
  · simp only [hx]
  · cases halt <;> simp only [hx]

end Rendering

open Rendering (located located_located located_bind)

section Choices

variable {c : Setting} {s : Stage}

private theorem runBlock_segment (line : Nat) (step : Step) :
    runBlock c [⟨line, step⟩] = located c.name line (step.run c) := by
  rw [runBlock, runBlock]
  exact bind_pure _

/-- The faults of a block have their lines already. -/
private theorem located_runBlock (line : Nat) (b : Block) :
    located c.name line (runBlock c b) = runBlock c b := by
  induction b with
  | nil =>
    rw [runBlock]
    rfl
  | cons segment b ih =>
    obtain ⟨inner, step⟩ := segment
    rw [runBlock, located_bind, located_located, ih]

private theorem Step.run_choice (clauses : List (Formula × Block)) (otherwise : Option Block) :
    (Step.choice clauses otherwise).run c =
      runClauses c (runBlock c (otherwise.getD [])) clauses := by
  cases otherwise with
  | none =>
    rw [Step.run, Option.getD_none, runBlock]
  | some body => rw [Step.run, Option.getD_some]

/-- The condition of a clause does not say no: it holds or it fails. -/
def Setting.decides (c : Setting) (bindings : Dict Value) (clause : Clause) : Bool :=
  match clause.condition.tree.eval (c.environment bindings) with
  | .ok v => v.truthy
  | .error _ => true

private def Setting.answer (c : Setting) (line : Nat) (clause : Clause) : Rendering Unit :=
  located c.name line (c.value clause.condition >>= fun _ => runBlock c clause.body)

variable {clause : Clause} {v : Value} {e : EvalError}

private theorem value_eq_fail {f : Formula}
    (h : f.tree.eval (c.environment s.bindings) = .error e) :
    c.value f s = (Rendering.fail (.eval e) : Rendering Value) s := by
  rw [Setting.value, h]
  rfl

private theorem located_at {x y : Rendering Unit} (h : x s = y s) (name : String) (line : Nat) :
    located name line x s = located name line y s := by
  unfold located
  rw [h]

private theorem Setting.answer_ok
    (h : clause.condition.tree.eval (c.environment s.bindings) = .ok v)
    (line : Nat) : c.answer line clause s = runBlock c clause.body s := by
  have hrun : (c.value clause.condition >>= fun _ => runBlock c clause.body) s =
      runBlock c clause.body s := by
    rw [bind_at (value_eq_pure h), pure_bind]
  rw [Setting.answer, located_at hrun, located_runBlock]

private theorem Setting.answer_error
    (h : clause.condition.tree.eval (c.environment s.bindings) = .error e) (line : Nat) :
    c.answer line clause s = .error (.failed (.render e.message c.name line)) s := by
  have hrun : (c.value clause.condition >>= fun _ => runBlock c clause.body) s =
      (Rendering.fail (.eval e) : Rendering Unit) s := bind_at (value_eq_fail h) _
  rw [Setting.answer, located_at hrun]
  rfl

section Clauses

variable {fallback : Rendering Unit}

private theorem runClauses_skip (h : c.decides s.bindings clause = false)
    (rest : List (Formula × Block)) :
    runClauses c fallback (clause.branch :: rest) s = runClauses c fallback rest s := by
  unfold Setting.decides at h
  rw [Clause.branch, runClauses]
  split at h
  · rename_i v hv
    rw [bind_at (value_eq_pure hv), pure_bind, h]
    rfl
  · simp at h

private theorem runClauses_decided (h : c.decides s.bindings clause = true)
    (rest : List (Formula × Block)) :
    runClauses c fallback (clause.branch :: rest) s =
      (c.value clause.condition >>= fun _ => runBlock c clause.body) s := by
  unfold Setting.decides at h
  rw [Clause.branch, runClauses]
  split at h
  · rename_i v hv
    rw [bind_at (value_eq_pure hv), bind_at (value_eq_pure hv), pure_bind, pure_bind, h]
    rfl
  · rename_i e he
    rw [bind_at (value_eq_fail he), bind_at (value_eq_fail he)]
    rfl

private theorem runClauses_eq (clauses : List Clause) :
    runClauses c fallback (clauses.map Clause.branch) s =
      match clauses.find? (c.decides s.bindings) with
      | none => fallback s
      | some clause => (c.value clause.condition >>= fun _ => runBlock c clause.body) s := by
  induction clauses with
  | nil =>
    rw [List.map_nil, runClauses]
    rfl
  | cons clause clauses ih =>
    rw [List.map_cons, List.find?_cons]
    cases h : c.decides s.bindings clause with
    | true => exact runClauses_decided h _
    | false => exact (runClauses_skip h _).trans ih

end Clauses

variable {custom : List CustomTag}

private theorem Ladder.run_segment (l : Ladder custom) :
    runBlock c [l.segment] s =
      match l.clauses.find? (c.decides s.bindings) with
      | none => runBlock c (l.tail.otherwise.getD []) s
      | some clause => c.answer l.first.tag.line clause s := by
  have hrun : runClauses c (runBlock c (l.tail.otherwise.getD [])) (l.clauses.map Clause.branch) s =
      _ := runClauses_eq l.clauses
  rw [segment, runBlock_segment, Step.run_choice]
  cases hfind : l.clauses.find? (c.decides s.bindings) with
  | none =>
    rw [hfind] at hrun
    rw [located_at hrun, located_runBlock]
  | some clause =>
    rw [hfind] at hrun
    exact located_at hrun _ _

/-- A nest answers with the first clause that decides, on the line of that clause. -/
private theorem Ladder.run_nestFrom (tail : Tail custom)
    (unclaimed : ∀ tag ∈ custom, Branch.read? tag.name.toList = none)
    (first : Rung custom ['i', 'f']) (more : List (Rung custom ['e', 'l', 'i', 'f'])) :
    runBlock c [(nestFrom tail unclaimed first more).segment] s =
      match (first.clause :: more.map Rung.clause).find? (c.decides s.bindings) with
      | none => runBlock c (tail.otherwise.getD []) s
      | some clause => c.answer clause.line clause s := by
  induction more generalizing first with
  | nil =>
    rw [nestFrom, run_segment, clauses, List.map_nil, List.find?_singleton]
    cases c.decides s.bindings first.clause <;> rfl
  | cons r more ih =>
    rw [nestFrom, run_segment, clauses, List.map_nil, List.find?_singleton, List.find?_cons]
    cases c.decides s.bindings first.clause with
    | true => rfl
    | false => exact ih r.beginning

private theorem Ladder.run_nest (l : Ladder custom) :
    runBlock c [l.nest.segment] s =
      match l.clauses.find? (c.decides s.bindings) with
      | none => runBlock c (l.tail.otherwise.getD []) s
      | some clause => c.answer clause.line clause s :=
  run_nestFrom l.tail l.unclaimed l.first l.more

end Choices

/-- A choice is compiled to one segment, and so is its nest. The first condition that does not say
no decides, whatever stands behind it: if it holds, its block is all that is executed, and if it
fails, that is all that happens. The nest differs in the line of such a failure only. -/
theorem ladder_nests {custom : List CustomTag} (l : Ladder custom) :
    (∀ a : Assembly,
      l.tokens.foldlM (Assembly.step true custom) a = .ok ⟨a.frames, l.segment :: a.current⟩ ∧
      l.nest.tokens.foldlM (Assembly.step true custom) a =
        .ok ⟨a.frames, l.nest.segment :: a.current⟩) ∧
    (∀ (c : Setting) (s : Stage),
      match l.clauses.find? (c.decides s.bindings) with
      | none =>
        runBlock c [l.segment] s = runBlock c (l.tail.otherwise.getD []) s ∧
        runBlock c [l.nest.segment] s = runBlock c (l.tail.otherwise.getD []) s
      | some clause =>
        match clause.condition.tree.eval (c.environment s.bindings) with
        | .ok _ =>
          runBlock c [l.segment] s = runBlock c clause.body s ∧
          runBlock c [l.nest.segment] s = runBlock c clause.body s
        | .error e =>
          runBlock c [l.segment] s =
            .error (.failed (.render e.message c.name l.first.tag.line)) s ∧
          runBlock c [l.nest.segment] s =
            .error (.failed (.render e.message c.name clause.line)) s) ∧
    ∀ (c : Setting) (s : Stage) (other : Ladder custom) done clause rest rest',
      l.clauses = done ++ clause :: rest → other.clauses = done ++ clause :: rest' →
      c.decides s.bindings clause = true →
      runBlock c [other.segment] s = runBlock c [l.segment] s ∧
      runBlock c [other.nest.segment] s = runBlock c [l.nest.segment] s := by
  refine ⟨fun a => ⟨l.taken a, l.nest.taken a⟩, fun c s => ?_, ?_⟩
  · have hflat := l.run_segment (c := c) (s := s)
    have hnest := l.run_nest (c := c) (s := s)
    cases hfind : l.clauses.find? (c.decides s.bindings) with
    | none =>
      rw [hfind] at hflat hnest
      exact ⟨hflat, hnest⟩
    | some clause =>
      rw [hfind] at hflat hnest
      dsimp only
      cases heval : clause.condition.tree.eval (c.environment s.bindings) with
      | ok v => exact ⟨hflat.trans (c.answer_ok heval _), hnest.trans (c.answer_ok heval _)⟩
      | error e =>
        exact ⟨hflat.trans (c.answer_error heval _), hnest.trans (c.answer_error heval _)⟩
  · intro c s other done clause rest rest' hl hother hdecides
    have hfind : ∀ rest, (done ++ clause :: rest).find? (c.decides s.bindings) =
        (done.find? (c.decides s.bindings)).or (some clause) := by
      intro rest
      rw [List.find?_append, List.find?_cons, hdecides]
    have hline : other.first.tag.line = l.first.tag.line := by
      have hhead : other.clauses.head? = l.clauses.head? := by
        rw [hl, hother]
        cases done <;> rfl
      exact congrArg Clause.line (Option.some.inj hhead)
    constructor
    · rw [other.run_segment, l.run_segment, hl, hother, hfind, hfind, hline]
      cases done.find? (c.decides s.bindings) <;> rfl
    · rw [other.run_nest, l.run_nest, hl, hother, hfind, hfind]
      cases done.find? (c.decides s.bindings) <;> rfl

/-- A condition on the second line that fails behind one that does not hold. -/
theorem ladder_nests_failing : ∃ l : Ladder [],
    l.tokens.map Token.content = ["if a", "x", "elif b", "y", "endif"] ∧
    l.nest.tokens.map Token.content = ["if a", "x", "else", "if b", "y", "endif", "endif"] ∧
    ∀ (host : Host) insert output loader,
      let c : Setting := ⟨"page", ⟨"page", none, none, []⟩, host, insert⟩
      let s : Stage := ⟨[("a", .bool false)], output, loader⟩
      let fault (line : Nat) : Halt := .failed (.render "name 'b' is not defined" "page" line)
      runBlock c [l.segment] s = .error (fault 1) s ∧
      runBlock c [l.nest.segment] s = .error (fault 2) s := by
  let text (content : String) : Body [] := ⟨[⟨1, .text, content, 0, 0⟩], [⟨1, .text content⟩], rfl⟩
  have hgap : Text.Blanks [' '] := by
    intro c hc
    rw [List.mem_singleton.mp hc]
    decide
  let a : Rung [] ['i', 'f'] := ⟨⟨1, .block, "if a", 0, 0⟩, ⟨"a", .name "a"⟩, text "x",
    rfl, ⟨[' '], by decide, hgap, (by decide : Text.isBlank 'a' = false), by decide⟩, rfl⟩
  let b : Rung [] ['e', 'l', 'i', 'f'] := ⟨⟨2, .block, "elif b", 0, 0⟩, ⟨"b", .name "b"⟩, text "y",
    rfl, ⟨[' '], by decide, hgap, (by decide : Text.isBlank 'b' = false), by decide⟩, rfl⟩
  let l : Ladder [] := ⟨a, [b], ⟨none, ⟨2, .block, "endif", 0, 0⟩, rfl, by decide⟩, by simp⟩
  refine ⟨l, rfl, ?_, fun host insert output loader => ?_⟩
  · change ["if a", "x", String.ofList "else".toList, String.ofList ("elif b".toList.drop 2), "y",
      "endif", "endif"] = _
    decide
  exact (ladder_nests l).2.1 ⟨"page", ⟨"page", none, none, []⟩, host, insert⟩
    ⟨[("a", .bool false)], output, loader⟩

end Stencil
