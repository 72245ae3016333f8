import Stencil.Expr.Eval
import Stencil.Proofs.Value.Dict
import Stencil.Proofs.Value.Heredity

/-! # Names in expressions -/

namespace Stencil

namespace Expr

mutual

/-- The names an expression mentions. Members and methods are not looked up. -/
def names : Expr → List String
  | literal _ => []
  | name n => [n]
  | list items => itemNames items
  | dict entries => entryNames entries
  | member target _ => names target
  | index target i => names target ++ names i
  | slice target lower upper => names target ++ (boundNames lower ++ boundNames upper)
  | call callee args => names callee ++ itemNames args
  | unary _ e => names e
  | binary _ left right => names left ++ names right
  | choice condition value otherwise => names condition ++ (names value ++ names otherwise)

def itemNames : List Expr → List String
  | [] => []
  | e :: es => names e ++ itemNames es

def boundNames : Option Expr → List String
  | none => []
  | some e => names e

def entryNames : List (Expr × Expr) → List String
  | [] => []
  | (k, e) :: rest => names k ++ (names e ++ entryNames rest)

end

private theorem eval_call {env : Environment} {callee : Expr}
    (h : ∀ target n, callee ≠ member target n) (args : List Expr) :
    (call callee args).eval env =
      (do let args ← evalItems env args; env.call (← callee.eval env) args) := by
  rw [eval]
  exact h

section Agreement

variable {env env' : Environment}

/-- A call depends on its arguments and on what is called. That is looked at before it is evaluated:
a member of a value is called as a method. -/
private theorem evalCall_congr (hhost : env.host = env'.host) {callee : Expr} {args : List Expr}
    (hcallee : callee.eval env = callee.eval env')
    (htarget : ∀ target n, callee = member target n → target.eval env = target.eval env')
    (hargs : evalItems env args = evalItems env' args) :
    (call callee args).eval env = (call callee args).eval env' := by
  cases callee with
  | member target n =>
    simp only [eval, hargs, htarget target n rfl, Environment.callMember, hhost]
  | _ =>
    rw [eval_call (by simp) args, eval_call (by simp) args, hargs, hcallee]
    simp only [Environment.call, hhost]

private theorem evalBinary_congr {left right : Expr} (hleft : left.eval env = left.eval env')
    (hright : right.eval env = right.eval env') (op : BinaryOp) :
    (binary op left right).eval env = (binary op left right).eval env' := by
  cases op <;> simp only [eval, hleft, hright]

mutual

/-- Only the names an expression mentions matter for its value. -/
theorem eval_congr (hhost : env.host = env'.host) :
    ∀ e : Expr, (∀ x ∈ e.names, env.lookup x = env'.lookup x) → e.eval env = e.eval env'
  | literal _, _ => by rw [eval, eval]
  | name n, hn => by
    have hlookup := hn n (List.mem_singleton_self n)
    rw [eval, eval, Environment.resolve, Environment.resolve, hlookup]
  | list items, hn => by rw [eval, eval, evalItems_congr hhost items hn]
  | dict entries, hn => by rw [eval, eval, evalEntries_congr hhost [] entries hn]
  | member target _, hn => by rw [eval, eval, eval_congr hhost target hn]
  | index target i, hn => by
    obtain ⟨ht, hi⟩ := List.forall_mem_append.mp hn
    rw [eval, eval, eval_congr hhost target ht, eval_congr hhost i hi]
  | slice target lower upper, hn => by
    obtain ⟨ht, hb⟩ := List.forall_mem_append.mp hn
    obtain ⟨hl, hu⟩ := List.forall_mem_append.mp hb
    rw [eval, eval, eval_congr hhost target ht, evalBound_congr hhost lower hl,
      evalBound_congr hhost upper hu]
  | call callee args, hn => by
    obtain ⟨hc, ha⟩ := List.forall_mem_append.mp hn
    have hargs := evalItems_congr hhost args ha
    have hcallee := eval_congr hhost callee hc
    cases callee with
    | member target n =>
      have htarget := eval_congr hhost target hc
      exact evalCall_congr hhost hcallee (fun | _, _, rfl => htarget) hargs
    | _ => exact evalCall_congr hhost hcallee (fun _ _ h => by cases h) hargs
  | unary _ e, hn => by rw [eval, eval, eval_congr hhost e hn]
  | binary op left right, hn => by
    obtain ⟨hl, hr⟩ := List.forall_mem_append.mp hn
    exact evalBinary_congr (eval_congr hhost left hl) (eval_congr hhost right hr) op
  | choice condition value otherwise, hn => by
    obtain ⟨hc, hb⟩ := List.forall_mem_append.mp hn
    obtain ⟨hv, ho⟩ := List.forall_mem_append.mp hb
    rw [eval, eval, eval_congr hhost condition hc, eval_congr hhost value hv,
      eval_congr hhost otherwise ho]

private theorem evalItems_congr (hhost : env.host = env'.host) :
    ∀ es : List Expr, (∀ x ∈ itemNames es, env.lookup x = env'.lookup x) →
      evalItems env es = evalItems env' es
  | [], _ => rfl
  | e :: es, hn => by
    obtain ⟨he, hes⟩ := List.forall_mem_append.mp hn
    rw [evalItems, evalItems, eval_congr hhost e he, evalItems_congr hhost es hes]

private theorem evalBound_congr (hhost : env.host = env'.host) :
    ∀ bound : Option Expr, (∀ x ∈ boundNames bound, env.lookup x = env'.lookup x) →
      evalBound env bound = evalBound env' bound
  | none, _ => rfl
  | some e, hn => by rw [evalBound, evalBound, eval_congr hhost e hn]

private theorem evalEntries_congr (hhost : env.host = env'.host) (done : Dict Value) :
    ∀ es : List (Expr × Expr), (∀ x ∈ entryNames es, env.lookup x = env'.lookup x) →
      evalEntries env done es = evalEntries env' done es
  | [], _ => rfl
  | (k, e) :: rest, hn => by
    obtain ⟨hk, hb⟩ := List.forall_mem_append.mp hn
    obtain ⟨he, hr⟩ := List.forall_mem_append.mp hb
    have hrest := fun done => evalEntries_congr hhost done rest hr
    simp only [evalEntries, eval_congr hhost k hk, eval_congr hhost e he, hrest]

end

end Agreement

section Heredity

variable {P : Value → Prop} {env : Environment}

private theorem resolve_yields (h : Value.Hereditary P) {n : String}
    (hn : ∀ v, env.lookup n = some v → P v) : Yields P (env.resolve n) := by
  unfold Environment.resolve
  split
  · next hv => exact .ok (hn _ hv)
  · split
    · exact .ok (h.function _)
    · exact .error _

private theorem evalBinary_yields (h : Value.Hereditary P) {left right : Expr}
    (hleft : Yields P (left.eval env)) (hright : Yields P (right.eval env)) (op : BinaryOp) :
    Yields P ((binary op left right).eval env) := by
  cases op with
  | and =>
    rw [eval]
    refine hleft.bind fun v hv => ?_
    split
    · exact hright
    · exact .ok hv
  | or =>
    rw [eval]
    refine hleft.bind fun v hv => ?_
    split
    · exact .ok hv
    · exact hright
  | _ =>
    simp only [eval]
    exact hleft.bind fun v hv => hright.bind fun w hw => h.binary hv hw _

private theorem evalChoice_yields {condition value otherwise : Expr}
    (hvalue : Yields P (value.eval env)) (hotherwise : Yields P (otherwise.eval env)) :
    Yields P ((choice condition value otherwise).eval env) := by
  rw [eval]
  refine .after fun c => ?_
  split
  · exact hvalue
  · exact hotherwise

section Calls

variable (h : Value.Hereditary P)
  (hhost : ∀ name args, (∀ v ∈ args, P v) → Yields P (env.host name args))
include h hhost

private theorem function_yields (f : Function) {args : List Value} (ha : ∀ v ∈ args, P v) :
    Yields P (f.call env.host args) := by
  cases f with
  | builtin b => exact h.builtin b ha
  | host name serial => exact hhost name args ha

private theorem call_yields (callee : Value) {args : List Value} (ha : ∀ v ∈ args, P v) :
    Yields P (env.call callee args) := by
  cases callee with
  | function f => exact function_yields h hhost f ha
  | _ => exact .error _

private theorem callMember_yields {target : Value} (ht : P target) (name : String)
    {args : List Value} (ha : ∀ v ∈ args, P v) : Yields P (env.callMember target name args) := by
  unfold Environment.callMember
  split
  · split
    · exact function_yields h hhost _ ha
    · exact h.method ht name ha
  · exact h.method ht name ha

private theorem evalCall_yields {callee : Expr} {args : List Expr}
    (htarget : ∀ target n, callee = member target n → Yields P (target.eval env))
    (hargs : Yields (fun vs => ∀ v ∈ vs, P v) (evalItems env args)) :
    Yields P ((call callee args).eval env) := by
  cases callee with
  | member target n =>
    rw [eval]
    exact hargs.bind fun vs hvs => (htarget target n rfl).bind fun v hv =>
      callMember_yields h hhost hv n hvs
  | _ =>
    rw [eval_call (by simp) args]
    exact hargs.bind fun vs hvs => .after fun v => call_yields h hhost v hvs

end Calls

mutual

theorem eval_yields (h : Value.Hereditary P)
    (hhost : ∀ name args, (∀ v ∈ args, P v) → Yields P (env.host name args)) :
    ∀ e : Expr, (∀ x ∈ e.names, ∀ v, env.lookup x = some v → P v) → Yields P (e.eval env)
  | literal c, _ => by
    rw [eval]
    exact .ok (h.literal c)
  | name n, hn => by
    rw [eval]
    exact resolve_yields h (hn n (List.mem_singleton_self n))
  | list items, hn => by
    rw [eval]
    exact (evalItems_yields h hhost items hn).bind fun vs hvs => .ok ((h.list vs).mpr hvs)
  | dict entries, hn => by
    have hempty : ∀ entry ∈ ([] : Dict Value), P entry.2 := fun _ hm => (List.not_mem_nil hm).elim
    rw [eval]
    exact (evalEntries_yields h hhost hempty entries hn).bind fun d hd => .ok ((h.map d).mpr hd)
  | member target n, hn => by
    rw [eval]
    exact (eval_yields h hhost target hn).bind fun v hv => h.member hv n
  | index target i, hn => by
    obtain ⟨ht, -⟩ := List.forall_mem_append.mp hn
    rw [eval]
    exact (eval_yields h hhost target ht).bind fun v hv => .after fun w => h.index hv w
  | slice target lower upper, hn => by
    obtain ⟨ht, -⟩ := List.forall_mem_append.mp hn
    rw [eval]
    exact (eval_yields h hhost target ht).bind fun v hv =>
      .after fun lower => .after fun upper => h.slice hv lower upper
  | call callee args, hn => by
    obtain ⟨hc, ha⟩ := List.forall_mem_append.mp hn
    have hargs := evalItems_yields h hhost args ha
    cases callee with
    | member target n =>
      have htarget := eval_yields h hhost target hc
      exact evalCall_yields h hhost (fun | _, _, rfl => htarget) hargs
    | _ => exact evalCall_yields h hhost (fun _ _ he => by cases he) hargs
  | unary op e, hn => by
    rw [eval]
    exact .after fun v => h.unary op v
  | binary op left right, hn => by
    obtain ⟨hl, hr⟩ := List.forall_mem_append.mp hn
    exact evalBinary_yields h (eval_yields h hhost left hl) (eval_yields h hhost right hr) op
  | choice condition value otherwise, hn => by
    obtain ⟨-, hb⟩ := List.forall_mem_append.mp hn
    obtain ⟨hv, ho⟩ := List.forall_mem_append.mp hb
    exact evalChoice_yields (eval_yields h hhost value hv) (eval_yields h hhost otherwise ho)

private theorem evalItems_yields (h : Value.Hereditary P)
    (hhost : ∀ name args, (∀ v ∈ args, P v) → Yields P (env.host name args)) :
    ∀ es : List Expr, (∀ x ∈ itemNames es, ∀ v, env.lookup x = some v → P v) →
      Yields (fun vs => ∀ v ∈ vs, P v) (evalItems env es)
  | [], _ => .ok fun _ hm => (List.not_mem_nil hm).elim
  | e :: es, hn => by
    obtain ⟨he, hes⟩ := List.forall_mem_append.mp hn
    have hrest := evalItems_yields h hhost es hes
    rw [evalItems]
    exact (eval_yields h hhost e he).bind fun v hv => hrest.bind fun vs hvs =>
      .ok (List.forall_mem_cons.mpr ⟨hv, hvs⟩)

private theorem evalEntries_yields (h : Value.Hereditary P)
    (hhost : ∀ name args, (∀ v ∈ args, P v) → Yields P (env.host name args)) {done : Dict Value}
    (hdone : ∀ entry ∈ done, P entry.2) :
    ∀ es : List (Expr × Expr), (∀ x ∈ entryNames es, ∀ v, env.lookup x = some v → P v) →
      Yields (fun d => ∀ entry ∈ d, P entry.2) (evalEntries env done es)
  | [], _ => .ok hdone
  | (k, e) :: rest, hn => by
    obtain ⟨-, hb⟩ := List.forall_mem_append.mp hn
    obtain ⟨he, hr⟩ := List.forall_mem_append.mp hb
    rw [evalEntries]
    refine .after fun key => .after fun text => (eval_yields h hhost e he).bind fun v hv => ?_
    refine evalEntries_yields h hhost (fun entry hentry => ?_) rest hr
    rcases Dict.mem_set hentry with rfl | hentry
    · exact hv
    · exact hdone entry hentry

end

end Heredity

end Expr

end Stencil
