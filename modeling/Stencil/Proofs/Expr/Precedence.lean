import Stencil.Proofs.Expr.Grammar

/-! # Precedence of operators -/

namespace Stencil

inductive Operator where
  | sign (op : UnaryOp)
  | link (op : BinaryOp)
  deriving DecidableEq

namespace Operator

/-- Operators that bind alike, the loosest first. -/
def levels : List (List Operator) :=
  [[link .or], [link .and], [sign .not],
    [link .within, link .notWithin, link .same, link .notSame, link .eq, link .ne, link .lt,
      link .le, link .gt, link .ge],
    [link .add, link .sub], [link .mul, link .div, link .floorDiv, link .mod],
    [sign .negate, sign .plus], [link .pow]]

def level (o : Operator) : Nat :=
  levels.findIdx (·.contains o)

/-- An operator may end the left operand of `op`: it binds tighter, or it groups to the left with
`op`. -/
def Yields (o : Operator) (op : BinaryOp) : Prop :=
  (link op).level < o.level ∨ op ≠ .pow ∧ ∃ x, o = link x ∧ o.level = (link op).level

/-- An operator between operands may begin the operand behind `o`: it binds tighter, or it groups
to the right with `o`. -/
def Takes (o : Operator) (op : BinaryOp) : Prop :=
  o.level < (link op).level ∨ o = link .pow ∧ op = .pow

/-- The power that an operator behind the operand of `o` needs to exceed. -/
def hold : Operator → Nat
  | sign op => op.power - 1
  | link op => if op = .pow then op.power - 1 else op.power

private theorem power_sign (op : UnaryOp) : op.power = 10 * ((sign op).level + 1) := by
  cases op <;> rfl

private theorem power_link (op : BinaryOp) : op.power = 10 * ((link op).level + 1) := by
  cases op <;> rfl

private theorem level_sign_ne (op : UnaryOp) (x : BinaryOp) : (sign op).level ≠ (link x).level := by
  cases op <;> cases x <;> decide

private theorem level_pow {op : BinaryOp} : (link .pow).level ≤ (link op).level ↔ op = .pow := by
  cases op <;> decide

private theorem takes_iff (o : Operator) (op : BinaryOp) : o.Takes op ↔ o.hold < op.power := by
  rw [power_link]
  cases o with
  | sign s =>
    have hne := level_sign_ne s op
    simp only [Takes, hold, power_sign, reduceCtorEq, false_and, or_false]
    omega
  | link x =>
    by_cases hx : x = .pow
    · subst hx
      simp only [Takes, hold, power_link, if_true, true_and]
      rw [← level_pow]
      omega
    · simp only [Takes, hold, if_neg hx, power_link, link.injEq]
      simp only [hx, false_and, or_false]
      omega

private theorem yields_iff (o : Operator) (op : BinaryOp) : o.Yields op ↔ op.power ≤ o.hold := by
  rw [power_link]
  cases o with
  | sign s =>
    have hne := level_sign_ne s op
    simp only [Yields, hold, power_sign, reduceCtorEq, false_and, exists_false, and_false, or_false]
    omega
  | link x =>
    by_cases hx : x = .pow
    · subst hx
      simp only [Yields, hold, power_link, link.injEq, exists_eq_left', if_true]
      rw [ne_eq, ← level_pow]
      omega
    · simp only [Yields, hold, power_link, link.injEq, exists_eq_left', if_neg hx]
      rw [← level_pow] at hx
      rw [ne_eq, ← level_pow]
      omega

end Operator

inductive Constituent where
  | operand (e : Expr)
  | operator (o : Operator)

def Operand.parts (o : Operand) : List Constituent :=
  o.signs.map (fun op => .operator (.sign op)) ++ [.operand o.value]

def Chain.parts (c : Chain) : List Constituent :=
  c.links.flatMap (fun link => link.1.parts ++ [.operator (.link link.2)]) ++ c.last.parts

inductive Grouping where
  | operand (e : Expr)
  | unary (op : UnaryOp) (g : Grouping)
  | binary (op : BinaryOp) (left right : Grouping)

namespace Grouping

def expr : Grouping → Expr
  | operand e => e
  | unary op g => .unary op g.expr
  | binary op left right => .binary op left.expr right.expr

def parts : Grouping → List Constituent
  | operand e => [.operand e]
  | unary op g => .operator (.sign op) :: g.parts
  | binary op left right => left.parts ++ .operator (.link op) :: right.parts

/-- The operators with nothing behind their last operand. -/
def rightEdge : Grouping → List Operator
  | operand _ => []
  | unary op g => .sign op :: g.rightEdge
  | binary op _ right => .link op :: right.rightEdge

/-- The operators with nothing before their first operand. -/
def leftEdge : Grouping → List BinaryOp
  | operand _ => []
  | unary _ _ => []
  | binary op left _ => op :: left.leftEdge

/-- Every operator has the operands that the levels give it. -/
def Grouped : Grouping → Prop
  | operand _ => True
  | unary op g => g.Grouped ∧ ∀ x ∈ g.leftEdge, (Operator.sign op).Takes x
  | binary op left right => left.Grouped ∧ right.Grouped ∧
      (∀ o ∈ left.rightEdge, o.Yields op) ∧ ∀ x ∈ right.leftEdge, (Operator.link op).Takes x

inductive Frame where
  | unary (op : UnaryOp)
  | binary (left : Grouping) (op : BinaryOp)

namespace Frame

def operator : Frame → Operator
  | unary op => .sign op
  | binary _ op => .link op

def growing : Frame → Growing
  | unary op => .unary op
  | binary left op => .binary left.expr op

def finish (f : Frame) (g : Grouping) : Grouping :=
  match f with
  | unary op => .unary op g
  | binary left op => .binary op left g

def parts : Frame → List Constituent
  | unary op => [.operator (.sign op)]
  | binary left op => left.parts ++ [.operator (.link op)]

def leftEdge : Frame → List BinaryOp
  | unary _ => []
  | binary left op => op :: left.leftEdge

def Grouped : Frame → Prop
  | unary _ => True
  | binary left op => left.Grouped ∧ ∀ o ∈ left.rightEdge, o.Yields op

variable (f : Frame) (g : Grouping)

private theorem growing_hold : f.growing.hold = f.operator.hold := by
  cases f <;> rfl

@[simp] theorem finish_expr : (f.finish g).expr = f.growing.finish g.expr := by
  cases f <;> rfl

@[simp] theorem finish_parts : (f.finish g).parts = f.parts ++ g.parts := by
  cases f <;> simp [finish, parts, Grouping.parts]

@[simp] theorem finish_leftEdge : (f.finish g).leftEdge = f.leftEdge := by
  cases f <;> rfl

@[simp] theorem finish_rightEdge : (f.finish g).rightEdge = f.operator :: g.rightEdge := by
  cases f <;> rfl

private theorem finish_grouped {f : Frame} {g : Grouping} (hf : f.Grouped) (hg : g.Grouped)
    (h : ∀ x ∈ g.leftEdge, f.operator.Takes x) : (f.finish g).Grouped := by
  cases f with
  | unary op => exact ⟨hg, h⟩
  | binary left op => exact ⟨hf.1, hg, hf.2, h⟩

end Frame

/-- The innermost of the growing operators takes what begins with such operators. -/
def Open (fs : List Frame) (xs : List BinaryOp) : Prop :=
  ∀ f ∈ fs.head?, ∀ x ∈ xs, f.operator.Takes x

private theorem open_nil (fs : List Frame) : Open fs [] :=
  fun _ _ _ hx => (List.not_mem_nil hx).elim

/-- Growing operators, the innermost first, each of which begins an operand of the next. -/
def Stack : List Frame → Prop
  | [] => True
  | f :: fs => f.Grouped ∧ Open fs f.leftEdge ∧ Stack fs

def past (fs : List Frame) : List Constituent :=
  fs.reverse.flatMap Frame.parts

@[simp] theorem past_cons (f : Frame) (fs : List Frame) : past (f :: fs) = past fs ++ f.parts := by
  simp [past]

/-- A tree that may stand as the last operand of growing operators. -/
structure Fits (fs : List Frame) (g : Grouping) : Prop where
  stack : Stack fs
  grouped : g.Grouped
  start : Open fs g.leftEdge

private theorem Fits.finish {f : Frame} {fs : List Frame} {g : Grouping} (h : Fits (f :: fs) g) :
    Fits fs (f.finish g) := by
  obtain ⟨⟨hf, hopen, hfs⟩, hg, hstart⟩ := h
  refine ⟨hfs, Frame.finish_grouped hf hg (hstart f rfl), ?_⟩
  rw [Frame.finish_leftEdge]
  exact hopen

/-- An operator completes those it takes nothing from; what is left takes it. -/
private theorem settle_spec {op : BinaryOp} {fs : List Frame} {g : Grouping} (h : Fits fs g)
    (hr : ∀ o ∈ g.rightEdge, o.Yields op) :
    ∃ fs' g', Chain.settle op.power (fs.map Frame.growing) g.expr =
        (fs'.map Frame.growing, g'.expr) ∧ Fits fs' g' ∧ (∀ o ∈ g'.rightEdge, o.Yields op) ∧
      Open fs' [op] ∧ past fs' ++ g'.parts = past fs ++ g.parts := by
  induction fs generalizing g with
  | nil => exact ⟨[], g, rfl, h, hr, fun _ hf => (Option.not_mem_none _ hf).elim, rfl⟩
  | cons f fs ih =>
    rw [List.map_cons, Chain.settle, Frame.growing_hold]
    by_cases hp : f.operator.hold < op.power
    · rw [if_pos hp]
      refine ⟨f :: fs, g, rfl, h, hr, ?_, rfl⟩
      intro f' hf' x hx
      cases hf'
      cases List.mem_singleton.mp hx
      exact (Operator.takes_iff _ _).mpr hp
    · have hy : f.operator.Yields op := (Operator.yields_iff _ _).mpr (Nat.not_lt.mp hp)
      have hr' : ∀ o ∈ (f.finish g).rightEdge, o.Yields op := by
        rw [Frame.finish_rightEdge]
        exact List.forall_mem_cons.mpr ⟨hy, hr⟩
      obtain ⟨fs', g', hs, hfits, hright, hopen, hparts⟩ := ih h.finish hr'
      rw [if_neg hp, ← Frame.finish_expr]
      refine ⟨fs', g', hs, hfits, hright, hopen, ?_⟩
      rw [hparts, Frame.finish_parts, past_cons, List.append_assoc]

private theorem grow_spec {fs : List Frame} (h : Stack fs) (signs : List UnaryOp) :
    ∃ fs', Chain.grow (fs.map Frame.growing) signs = fs'.map Frame.growing ∧ Stack fs' ∧
      past fs' = past fs ++ signs.map fun op => .operator (.sign op) := by
  induction signs generalizing fs with
  | nil => exact ⟨fs, rfl, h, by simp⟩
  | cons op signs ih =>
    have hs : Stack (.unary op :: fs) := ⟨trivial, open_nil fs, h⟩
    obtain ⟨fs', hgrow, hstack, hpast⟩ := ih hs
    refine ⟨fs', hgrow, hstack, ?_⟩
    rw [hpast, past_cons, List.append_assoc]
    rfl

private theorem finish_all {fs : List Frame} {g : Grouping} (h : Fits fs g) :
    ∃ g' : Grouping, (fs.map Frame.growing).foldl (fun e f => f.finish e) g.expr = g'.expr ∧
      g'.Grouped ∧ g'.parts = past fs ++ g.parts := by
  induction fs generalizing g with
  | nil => exact ⟨g, rfl, h.grouped, rfl⟩
  | cons f fs ih =>
    obtain ⟨g', he, hg, hparts⟩ := ih h.finish
    rw [List.map_cons, List.foldl_cons, ← Frame.finish_expr]
    refine ⟨g', he, hg, ?_⟩
    rw [hparts, Frame.finish_parts, past_cons, List.append_assoc]

private theorem fits_operand {fs : List Frame} (h : Stack fs) (e : Expr) : Fits fs (.operand e) :=
  ⟨h, trivial, open_nil fs⟩

private theorem treeFrom_spec {fs : List Frame} (h : Stack fs) (links : List (Operand × BinaryOp))
    (last : Operand) : ∃ g : Grouping, Chain.treeFrom (fs.map Frame.growing) links last = g.expr ∧
      g.Grouped ∧ g.parts = past fs ++ Chain.parts ⟨links, last⟩ := by
  -- The growing operators carry what has been read, so they vary along the chain.
  induction links generalizing fs with
  | nil =>
    obtain ⟨fs', hgrow, hstack, hpast⟩ := grow_spec h last.signs
    obtain ⟨g, he, hg, hparts⟩ := finish_all (fits_operand hstack last.value)
    refine ⟨g, ?_, hg, ?_⟩
    · rw [Chain.treeFrom, hgrow]
      exact he
    · rw [hparts, hpast, List.append_assoc]
      rfl
  | cons link links ih =>
    obtain ⟨operand, op⟩ := link
    obtain ⟨fs₁, hgrow, hstack, hpast⟩ := grow_spec h operand.signs
    have hfits := fits_operand hstack operand.value
    have hedge : ∀ o ∈ (Grouping.operand operand.value).rightEdge, o.Yields op :=
      fun _ ho => (List.not_mem_nil ho).elim
    obtain ⟨fs₂, left, hs, hleft, hright, hopen, hparts⟩ := settle_spec hfits hedge
    have hnew : Stack (.binary left op :: fs₂) := by
      refine ⟨⟨hleft.grouped, hright⟩, fun f hf => ?_, hleft.stack⟩
      exact List.forall_mem_cons.mpr ⟨hopen f hf op (by simp), hleft.start f hf⟩
    obtain ⟨g, he, hg, hall⟩ := ih hnew
    refine ⟨g, ?_, hg, ?_⟩
    · rw [Chain.treeFrom, hgrow]
      have hsettle : Chain.settle op.power (fs₁.map Frame.growing) operand.value =
          (fs₂.map Frame.growing, left.expr) := hs
      rw [hsettle]
      exact he
    · rw [hall, past_cons, Frame.parts, ← List.append_assoc, hparts, hpast]
      simp [Chain.parts, Operand.parts, parts]

def completed (power : Nat) : List Frame → Grouping → List Frame × Grouping
  | [], g => ([], g)
  | f :: fs, g => if f.operator.hold < power then (f :: fs, g) else completed power fs (f.finish g)

private def shift : List Frame × Grouping → Constituent → List Frame × Grouping
  | (fs, _), .operand e => (fs, operand e)
  | (fs, g), .operator (.sign op) => (.unary op :: fs, g)
  | (fs, g), .operator (.link op) =>
    (.binary (completed op.power fs g).2 op :: (completed op.power fs g).1, g)

private def spine : Grouping → List Frame
  | operand _ => []
  | unary op g => g.spine ++ [.unary op]
  | binary op left right => right.spine ++ [.binary left op]

private def last : Grouping → Expr
  | operand e => e
  | unary _ g => g.last
  | binary _ _ right => right.last

private theorem completed_spine {power : Nat} {g : Grouping} (h : ∀ o ∈ g.rightEdge, power ≤ o.hold)
    (fs : List Frame) :
    completed power (g.spine ++ fs) (operand g.last) = completed power fs g := by
  induction g generalizing fs with
  | operand e => rfl
  | unary op g ih =>
    obtain ⟨hop, h⟩ := List.forall_mem_cons.mp h
    rw [spine, last, List.append_assoc, ih h, List.singleton_append, completed]
    exact if_neg (Nat.not_lt.mpr hop)
  | binary op left right _ ih =>
    obtain ⟨hop, h⟩ := List.forall_mem_cons.mp h
    rw [spine, last, List.append_assoc, ih h, List.singleton_append, completed]
    exact if_neg (Nat.not_lt.mpr hop)

private theorem finish_spine (g : Grouping) (fs : List Frame) :
    (g.spine ++ fs).foldl (fun g f => f.finish g) (operand g.last) =
      fs.foldl (fun g f => f.finish g) g := by
  induction g generalizing fs with
  | operand e => rfl
  | unary op g ih => rw [spine, last, List.append_assoc, ih]; rfl
  | binary op left right _ ih => rw [spine, last, List.append_assoc, ih]; rfl

/-- Reading the parts of a tree that is grouped by the levels leads to its right edge. -/
private theorem Grouped.foldl_shift {g : Grouping} (h : g.Grouped) {fs : List Frame}
    (ho : Open fs g.leftEdge) (before : Grouping) :
    g.parts.foldl shift (fs, before) = (g.spine ++ fs, operand g.last) := by
  induction g generalizing fs before with
  | operand e => rfl
  | unary op g ih =>
    obtain ⟨hg, htakes⟩ := h
    have hopen : Open (.unary op :: fs) g.leftEdge := by
      intro f hf
      cases hf
      exact htakes
    have hread := ih hg hopen before
    rw [spine, last, List.append_assoc]
    exact hread
  | binary op left right ihl ihr =>
    obtain ⟨hleft, hright, hyields, htakes⟩ := h
    have hopen : Open fs left.leftEdge := fun f hf x hx => ho f hf x (List.mem_cons_of_mem _ hx)
    have hhold : ∀ o ∈ left.rightEdge, op.power ≤ o.hold := fun o hm =>
      (Operator.yields_iff o op).mp (hyields o hm)
    have hstop : completed op.power fs left = (fs, left) := by
      cases fs with
      | nil => rfl
      | cons f fs => exact if_pos ((Operator.takes_iff _ _).mp (ho f rfl op List.mem_cons_self))
    have hnew : Open (.binary left op :: fs) right.leftEdge := by
      intro f hf
      cases hf
      exact htakes
    rw [parts, List.foldl_append, ihl hleft hopen before, List.foldl_cons, shift,
      completed_spine hhold, hstop, ihr hright hnew, spine, last, List.append_assoc]
    rfl

/-- A sequence of operands and operators is grouped by the levels in one way only. -/
private theorem Grouped.unique {g g' : Grouping} (h : g.Grouped) (h' : g'.Grouped)
    (hp : g.parts = g'.parts) : g = g' := by
  let close : List Frame × Grouping → Grouping := fun s => s.1.foldl (fun g f => f.finish g) s.2
  have hclose : ∀ {x : Grouping}, x.Grouped → close (x.parts.foldl shift ([], g)) = x := by
    intro x hx
    have hopen : Open [] x.leftEdge := fun _ hf => (Option.not_mem_none _ hf).elim
    rw [hx.foldl_shift hopen]
    exact finish_spine x []
  calc
    g = close (g.parts.foldl shift ([], g)) := (hclose h).symm
    _ = close (g'.parts.foldl shift ([], g)) := by rw [hp]
    _ = g' := hclose h'

end Grouping

private theorem Chain.tree_grouped (c : Chain) :
    ∃ g : Grouping, c.tree = g.expr ∧ g.Grouped ∧ g.parts = c.parts := by
  have hnone : Grouping.Stack [] := trivial
  exact Grouping.treeFrom_spec hnone c.links c.last

namespace Expr

/-- The text of an operation is read as the one tree over its operands and operators in which every
operator has the operands that the levels give it. -/
theorem parse_operation {ws : List Lexeme} {c : Chain} (h : Spells ws (.operation c))
    {text : String} (hs : (Lexeme.scan text.toList).map (fun l => l.1.shape) = ws) :
    ∃ g : Grouping, parse text = .ok g.expr ∧ g.parts = c.parts ∧ g.Grouped ∧
      ∀ g' : Grouping, g'.parts = c.parts → g'.Grouped → g' = g := by
  obtain ⟨g, htree, hg, hparts⟩ := c.tree_grouped
  refine ⟨g, ?_, hparts, hg, fun g' hp hg' => hg'.unique hg (hp.trans hparts.symm)⟩
  rw [h.operation.parse hs, htree]

/-- Operators before operands take what binds tighter, wherever they stand. -/
theorem parse_not_in_power :
    parse "a - not b in c ** -d ** e" = .ok (.binary .sub (.name "a") (.unary .not
      (.binary .within (.name "b") (.binary .pow (.name "c") (.unary .negate
        (.binary .pow (.name "d") (.name "e"))))))) := by
  have hspells := Spells.link [] .sub (.name "a") (.link [.not] .within (.name "b")
    (.link [] .pow (.name "c") (.link [.negate] .pow (.name "d") (.last [] (.name "e")))))
  have hscan : (Lexeme.scan "a - not b in c ** -d ** e".toList).map (fun l => l.1.shape) = _ := rfl
  obtain ⟨g, hparse, -, -, hunique⟩ := parse_operation hspells hscan
  let tree : Grouping := .binary .sub (.operand (.name "a")) (.unary .not
    (.binary .within (.operand (.name "b")) (.binary .pow (.operand (.name "c")) (.unary .negate
      (.binary .pow (.operand (.name "d")) (.operand (.name "e")))))))
  have htree : tree.Grouped := by
    simp [tree, Grouping.Grouped, Grouping.leftEdge, Grouping.rightEdge, Operator.takes_iff,
      Operator.hold, UnaryOp.power, BinaryOp.power]
  rw [hparse, ← hunique tree rfl htree]
  rfl

end Expr

end Stencil
