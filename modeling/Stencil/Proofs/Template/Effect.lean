import Stencil.Proofs.Template.Derivation

/-!
# What tokens do

A token adds a segment, or it begins, turns or ends the innermost block. It does so whatever is
around that block, so tokens that make a block by themselves make it behind anything.
-/

namespace Stencil

inductive Effect where
  | adds (step : Step)
  | opens (opening : Opening)
  /-- The innermost block goes on as another one. -/
  | turns (opening : Opening)
  | closes (step : Step)

namespace Effect

def Inside : Effect → Prop
  | adds _ => False
  | opens _ => False
  | turns _ => True
  | closes _ => True

def on (line : Nat) : Effect → Assembly → Assembly
  | adds step, a => a.push line step
  | opens opening, a => a.openBlock line opening
  | turns opening, ⟨frame :: frames, _⟩ => ⟨{ frame with opening } :: frames, []⟩
  | closes step, ⟨frame :: frames, _⟩ => Assembly.close frame frames step
  | _, a => a

end Effect

namespace Assembly

/-- Open blocks and segments behind those of another assembly. -/
def above (base : Assembly) : List Frame → Block → Assembly
  | [], current => ⟨base.frames, current ++ base.current⟩
  | frame :: frames, current =>
    { (above base frames frame.before).openBlock frame.line frame.opening with current }

variable {builtins : Bool} {custom : List CustomTag} {base a b : Assembly}

private theorem push_above (frames : List Frame) (current : Block) (line : Nat) (step : Step) :
    (above base frames current).push line step = above base frames (⟨line, step⟩ :: current) := by
  cases frames <;> rfl

private theorem on_above {e : Effect} (h : e.Inside → a.frames ≠ []) (line : Nat) :
    e.on line (above base a.frames a.current) =
      above base (e.on line a).frames (e.on line a).current := by
  obtain ⟨frames, current⟩ := a
  cases e with
  | adds step => exact push_above frames current line step
  | opens opening => rfl
  | turns opening =>
    cases frames with
    | nil => exact absurd rfl (h trivial)
    | cons frame frames => rfl
  | closes step =>
    cases frames with
    | nil => exact absurd rfl (h trivial)
    | cons frame frames => exact push_above frames frame.before frame.line step

private theorem header_effect {line : Nat} {h : Header} (hb : a.header line h = .ok b) :
    ∃ e : Effect, ¬ e.Inside ∧ ∀ a' : Assembly, a'.header line h = .ok (e.on line a') := by
  cases h with
  | choice condition =>
    obtain ⟨f, hf, -⟩ := bind_eq_ok.mp hb
    exact ⟨.opens (.clause [] f), id, fun a' => bind_eq_ok.mpr ⟨f, hf, rfl⟩⟩
  | loop names items =>
    obtain ⟨targets, ht, hrest⟩ := bind_eq_ok.mp hb
    obtain ⟨f, hf, -⟩ := bind_eq_ok.mp hrest
    exact ⟨.opens (.loop targets (names.contains ',') f), id, fun a' =>
      bind_eq_ok.mpr ⟨targets, ht, bind_eq_ok.mpr ⟨f, hf, rfl⟩⟩⟩
  | insertion target =>
    obtain ⟨f, hf, -⟩ := bind_eq_ok.mp hb
    exact ⟨.adds (.insertion f), id, fun a' => bind_eq_ok.mpr ⟨f, hf, rfl⟩⟩
  | captured tag => exact ⟨.opens (.captured tag), id, fun a' => rfl⟩

/-- A tag inside a block does the same whatever is around the block. -/
private theorem within_effect {frame : Frame} {frames : List Frame} {body : Block} {line : Nat}
    {content : List Char} (hb : within frame frames body line content = .ok b) :
    ∃ e : Effect, e.Inside ∧ ∀ before frames' current,
      within { frame with before } frames' body line content =
        .ok (e.on line ⟨{ frame with before } :: frames', current⟩) := by
  obtain ⟨opened, opening, before⟩ := frame
  cases opening with
  | clause done condition =>
    simp only [within] at hb ⊢
    cases hr : Branch.read? content with
    | none => simp [hr] at hb
    | some branch =>
      rw [hr] at hb
      cases branch with
      | clause next =>
        obtain ⟨f, hf, -⟩ := bind_eq_ok.mp hb
        exact ⟨.turns (.clause (done ++ [(condition, body)]) f), trivial, fun _ _ _ =>
          bind_eq_ok.mpr ⟨f, hf, rfl⟩⟩
      | otherwise =>
        exact ⟨.turns (.otherwise (done ++ [(condition, body)])), trivial, fun _ _ _ => rfl⟩
      | ending =>
        exact ⟨.closes (.choice (done ++ [(condition, body)]) none), trivial, fun _ _ _ => rfl⟩
  | otherwise clauses =>
    simp only [within] at hb ⊢
    cases hr : Branch.read? content with
    | none => simp [hr] at hb
    | some branch =>
      rw [hr] at hb
      cases branch with
      | clause next => simp at hb
      | otherwise => simp at hb
      | ending => exact ⟨.closes (.choice clauses (some body)), trivial, fun _ _ _ => rfl⟩
  | loop targets unpack items =>
    simp only [within] at hb ⊢
    split at hb
    · rename_i hending
      exact ⟨.closes (.loop targets unpack items body), trivial, fun _ _ _ => if_pos hending⟩
    · simp at hb
  | captured tag =>
    simp only [within] at hb ⊢
    split at hb
    · rename_i hending
      exact ⟨.closes (.captured tag.name tag.transform body), trivial, fun _ _ _ => if_pos hending⟩
    · simp at hb

/-- What a token that is taken in does, and that it does so behind anything. -/
theorem step_effect {t : Token} (hb : step builtins custom a t = .ok b) :
    ∃ e : Effect, (e.Inside → a.frames ≠ []) ∧ (t.kind ≠ .block → ∃ s, e = .adds s) ∧
      b = e.on t.line a ∧ ∀ base, step builtins custom (above base a.frames a.current) t =
        .ok (e.on t.line (above base a.frames a.current)) := by
  unfold step at hb ⊢
  cases hk : t.kind with
  | text =>
    rw [hk] at hb
    cases hb
    exact ⟨.adds (.text t.content), False.elim, fun _ => ⟨_, rfl⟩, rfl, fun _ => rfl⟩
  | expression =>
    rw [hk] at hb
    obtain ⟨f, hf, he⟩ := bind_eq_ok.mp hb
    cases he
    exact ⟨.adds (.output f), False.elim, fun _ => ⟨_, rfl⟩, rfl, fun _ =>
      bind_eq_ok.mpr ⟨f, hf, rfl⟩⟩
  | block =>
    rw [hk] at hb
    cases hr : Header.read? builtins custom t.content.toList with
    | some h =>
      rw [hr] at hb
      obtain ⟨e, hoff, heffect⟩ := header_effect hb
      have hsame : a.header t.line h = .ok b := hb
      rw [heffect] at hsame
      exact ⟨e, fun h => absurd h hoff, fun h => absurd rfl h, (Except.ok.inj hsame).symm,
        fun _ => heffect _⟩
    | none =>
      rw [hr] at hb
      obtain ⟨frames, current⟩ := a
      cases frames with
      | nil => simp at hb
      | cons frame frames =>
        obtain ⟨e, -, heffect⟩ := within_effect hb
        have hsame : within frame frames current.reverse t.line t.content.toList = .ok b := hb
        rw [heffect frame.before frames current] at hsame
        exact ⟨e, fun _ => List.cons_ne_nil _ _, fun h => absurd rfl h,
          (Except.ok.inj hsame).symm, fun _ => heffect _ _ _⟩

private theorem run_above {ts : List Token} (hb : ts.foldlM (step builtins custom) a = .ok b) :
    ts.foldlM (step builtins custom) (above base a.frames a.current) =
      .ok (above base b.frames b.current) := by
  induction ts generalizing a with
  | nil =>
    cases hb
    rfl
  | cons t ts ih =>
    rw [List.foldlM_cons] at hb
    obtain ⟨next, hstep, hrest⟩ := bind_eq_ok.mp hb
    obtain ⟨e, hinside, -, rfl, habove⟩ := step_effect hstep
    rw [run_cons ts (habove base), on_above hinside]
    exact ih hrest

theorem run_ofTokens {ts : List Token} {b : Block} (h : ofTokens builtins custom ts = .ok b)
    (a : Assembly) :
    ts.foldlM (step builtins custom) a = .ok ⟨a.frames, b.reverse ++ a.current⟩ := by
  obtain ⟨⟨frames, current⟩, hrun, hfinish⟩ := bind_eq_ok.mp h
  cases frames with
  | nil =>
    cases hfinish
    rw [List.reverse_reverse]
    have habove : ts.foldlM (step builtins custom) (above a [] []) =
        .ok (above a [] current) := run_above hrun
    exact habove
  | cons frame frames => simp [finish] at hfinish

end Assembly

end Stencil
