import Stencil.Proofs.Expr.Writing

/-! # Reading lexeme by lexeme -/

namespace Stencil

namespace Expr

namespace Reading

/-- The state after a lexeme that is not refused, wherever it stands. -/
def next? (r : Reading) (l : Lexeme) : Option Reading :=
  match r.focus with
  | .operand =>
    match beginOperand r.holes r.pending l with
    | some r => some r
    | none => if r.pending.isStart then endEmpty r.holes l else none
  | .after e => afterOperand r.holes r.pending e l
  | .member target =>
    match l with
    | .name n => some ⟨r.holes, r.pending, .after (.member target n)⟩
    | _ => none

theorem step_eq_ok {r r' : Reading} {l : Lexeme × Nat} :
    r.step l = .ok r' ↔ r.next? l.1 = some r' := by
  obtain ⟨holes, p, focus⟩ := r
  obtain ⟨l, place⟩ := l
  cases focus with
  | operand =>
    simp only [step, next?]
    cases beginOperand holes p l with
    | some m => simp
    | none =>
      cases (if p.isStart = true then endEmpty holes l else none) with
      | some m => simp
      | none => cases l <;> simp
  | after e =>
    simp only [step, next?]
    cases afterOperand holes p e l <;> simp
  | member target => cases l <;> simp [step, next?]

/-- The place that `not in` carries matters to errors only. -/
private theorem next?_shape (r : Reading) (l : Lexeme) : r.next? l.shape = r.next? l := by
  cases l with
  | notWithin second =>
    obtain ⟨holes, p, focus⟩ := r
    cases focus with
    | operand =>
      cases holes with
      | nil => rfl
      | cons hole holes => cases hole <;> rfl
    | _ => rfl
  | _ => rfl

def Reads (r : Reading) (ls : List Lexeme) (r' : Reading) : Prop :=
  ls.foldlM next? r = some r'

theorem Reads.nil (r : Reading) : r.Reads [] r := rfl

theorem Reads.cons {r m r' : Reading} {l : Lexeme} {ls : List Lexeme} (h : r.next? l = some m)
    (hr : m.Reads ls r') : r.Reads (l :: ls) r' := by
  rw [Reads, List.foldlM_cons, h]
  exact hr

theorem Reads.append {r m r' : Reading} {ws vs : List Lexeme} (h : r.Reads ws m)
    (hr : m.Reads vs r') : r.Reads (ws ++ vs) r' := by
  rw [Reads] at h hr ⊢
  rw [List.foldlM_append, h]
  exact hr

theorem Reads.single {r r' : Reading} {l : Lexeme} (h : r.next? l = some r') : r.Reads [l] r' :=
  .cons h (.nil r')

theorem foldlM_step {r r' : Reading} {ls : List (Lexeme × Nat)}
    (h : r.Reads (ls.map fun l => l.1.shape) r') : ls.foldlM step r = .ok r' := by
  induction ls generalizing r with
  | nil =>
    cases h
    rfl
  | cons l ls ih =>
    rw [Reads, List.map_cons, List.foldlM_cons, next?_shape] at h
    obtain ⟨m, hm, hr⟩ := Option.bind_eq_some_iff.mp h
    rw [List.foldlM_cons, step_eq_ok.mpr hm]
    exact ih hr

private theorem beginOperand_lexeme (op : UnaryOp) (holes : List Hole) (p : Pending) :
    beginOperand holes p op.lexeme = some ⟨holes, { p with signs := op :: p.signs }, .operand⟩ := by
  cases op <;> rfl

private theorem operator?_lexeme (op : BinaryOp) : operator? op.lexeme = some op := by
  cases op <;> rfl

theorem next?_sign (op : UnaryOp) (holes : List Hole) (p : Pending) :
    next? ⟨holes, p, .operand⟩ op.lexeme =
      some ⟨holes, { p with signs := op :: p.signs }, .operand⟩ := by
  simp only [next?, beginOperand_lexeme]

theorem next?_operator (op : BinaryOp) (holes : List Hole) (p : Pending) (e : Expr) :
    next? ⟨holes, p, .after e⟩ op.lexeme =
      some ⟨holes, ⟨(p.operand e, op) :: p.links, []⟩, .operand⟩ := by
  simp only [next?, afterOperand, operator?_lexeme]

end Reading

theorem oversized?_eq_none {ls : List (Lexeme × Nat)}
    (h : ∀ l ∈ ls, ∀ digits, l.1.shape ≠ .oversized digits) : oversized? ls = none := by
  refine List.findSome?_eq_none_iff.mpr fun l hl => ?_
  have hs := h l hl
  obtain ⟨l, place⟩ := l
  split
  · next heq =>
    cases heq
    exact (hs _ rfl).elim
  · rfl

end Expr

end Stencil
