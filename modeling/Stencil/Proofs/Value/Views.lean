import Mathlib.Data.List.Perm.Subperm
import Stencil.Proofs.Value.Dict
import Stencil.Proofs.Value.Searching

/-!
# Maps and their views

A map that is written out has every key once, where it was first written, with the value written
last. Membership, subscripts, members, methods and loops all read the same entries, and equality
looks at the entries whatever their order.
-/

namespace Stencil

namespace Dict

variable {α : Type}

private theorem keys_ofList (pairs : List (String × α)) :
    keys (ofList pairs) = (keys pairs).eraseDups := by
  induction pairs using List.reverseRecOn with
  | nil => rfl
  | append_singleton pairs entry ih =>
    have hkeys : keys (pairs ++ [entry]) = keys pairs ++ [entry.1] := by simp [keys]
    rw [ofList, extend_concat, ← ofList, keys_set, ih, hkeys, List.eraseDups_append]
    by_cases h : entry.1 ∈ keys pairs <;> simp [List.removeAll, List.eraseDups_cons, h]

private theorem keys_ofList_nodup (pairs : List (String × α)) : (keys (ofList pairs)).Nodup := by
  have hempty : (keys ([] : Dict α)).Nodup := List.nodup_nil
  exact keys_extend_nodup hempty pairs

private theorem mem_keys_ofList {pairs : List (String × α)} {key : String} :
    key ∈ keys (ofList pairs) ↔ key ∈ keys pairs := by
  rw [keys_ofList, List.mem_eraseDups]

def Last (pairs : List (String × α)) (entry : String × α) : Prop :=
  ∃ before after, pairs = before ++ entry :: after ∧ entry.1 ∉ keys after

private theorem get?_ofList {pairs : List (String × α)} {key : String} {v : α} :
    get? key (ofList pairs) = some v ↔ Last pairs (key, v) := by
  have hempty : get? key ([] : Dict α) = none := rfl
  rw [ofList, get?_extend, hempty, Option.or_none, List.lookup_eq_some_iff]
  constructor
  · rintro ⟨back, front, hsplit, hback⟩
    refine ⟨front.reverse, back.reverse, ?_, fun hkey => ?_⟩
    · rw [← List.reverse_reverse pairs, hsplit]
      simp
    · obtain ⟨entry, hentry, rfl⟩ := List.mem_map.mp hkey
      simpa using hback entry (List.mem_reverse.mp hentry)
  · rintro ⟨before, after, rfl, hafter⟩
    refine ⟨after.reverse, before.reverse, by simp, fun entry hentry => ?_⟩
    have hne : key ≠ entry.1 := by
      rintro rfl
      exact hafter (List.mem_map.mpr ⟨entry, List.mem_reverse.mp hentry, rfl⟩)
    simpa using hne

end Dict

/-- The map of settings made one after another: its keys are distinct and in the order in which they
were first set, each with what was set last under it. -/
structure Settled (pairs : List (String × Value)) (m : Dict Value) : Prop where
  distinct : m.keys.Nodup
  ordered : m.keys = (pairs.map (·.1)).eraseDups
  last : ∀ entry ∈ m, Dict.Last pairs entry

private theorem settled_ofList (pairs : List (String × Value)) :
    Settled pairs (Dict.ofList pairs) where
  distinct := Dict.keys_ofList_nodup pairs
  ordered := Dict.keys_ofList pairs
  last _ h := Dict.get?_ofList.mp (Dict.get?_of_mem (Dict.keys_ofList_nodup pairs) h)

namespace Expr

def Sets (env : Environment) : List (Expr × Expr) → List (String × Value) → Prop :=
  List.Forall₂ fun entry pair =>
    entry.1.eval env = .ok (.text pair.1) ∧ entry.2.eval env = .ok pair.2

private theorem evalEntries_sets {env : Environment} {entries : List (Expr × Expr)}
    {pairs : List (String × Value)} (h : Sets env entries pairs) (done : Dict Value) :
    evalEntries env done entries = .ok (done.extend pairs) := by
  induction h generalizing done with
  | nil => rfl
  | @cons entry pair entries pairs hentry _ ih =>
    obtain ⟨hkey, hvalue⟩ := hentry
    rw [evalEntries, hkey]
    change (entry.2.eval env >>= _) = _
    rw [hvalue]
    exact ih _

private theorem eval_dict {env : Environment} {entries : List (Expr × Expr)}
    {pairs : List (String × Value)} (h : Sets env entries pairs) :
    (Expr.dict entries).eval env = .ok (.map (Dict.ofList pairs)) := by
  rw [eval, evalEntries_sets h]
  rfl

end Expr

namespace Value

section Equality

variable {a b : Dict Value}

private theorem equalEntries_iff : equalEntries a b = true ↔
    ∀ entry ∈ a, ∃ w, b.get? entry.1 = some w ∧ entry.2.equal w = true := by
  induction a with
  | nil => simp [equalEntries]
  | cons entry a ih =>
    obtain ⟨k, v⟩ := entry
    rw [equalEntries, Bool.and_eq_true, ih, List.forall_mem_cons]
    cases b.get? k <;> simp

private theorem equal_map : (map a).equal (map b) = true ↔ a.length = b.length ∧
    ∀ entry ∈ a, ∃ w, b.get? entry.1 = some w ∧ entry.2.equal w = true := by
  rw [equal, Bool.and_eq_true, beq_iff_eq, equalEntries_iff]

def Alike : Option Value → Option Value → Prop :=
  Option.Rel fun v w => v.equal w = true

variable (ha : a.keys.Nodup) (hb : b.keys.Nodup)
include ha hb

theorem equal_map_iff : (map a).equal (map b) = true ↔ ∀ k, Alike (a.get? k) (b.get? k) := by
  rw [equal_map]
  constructor
  · rintro ⟨hlength, hentries⟩ k
    have hsub : a.keys ⊆ b.keys := by
      intro key hkey
      obtain ⟨entry, hentry, rfl⟩ := List.mem_map.mp hkey
      obtain ⟨w, hw, -⟩ := hentries entry hentry
      rw [Dict.mem_keys_iff, hw]
      rfl
    have hperm : a.keys.Perm b.keys :=
      (List.subperm_of_subset ha hsub).perm_of_length_le (by simp [Dict.keys, hlength])
    by_cases hk : k ∈ a.keys
    · obtain ⟨entry, hentry, rfl⟩ := List.mem_map.mp hk
      obtain ⟨w, hw, hequal⟩ := hentries entry hentry
      rw [Dict.get?_of_mem ha hentry, hw]
      exact .some hequal
    · rw [Dict.get?_of_not_mem hk, Dict.get?_of_not_mem (mt hperm.mem_iff.mpr hk)]
      exact .none
  · intro h
    have hmem : ∀ k, k ∈ a.keys ↔ k ∈ b.keys := by
      intro k
      rw [Dict.mem_keys_iff, Dict.mem_keys_iff]
      have hk := h k
      revert hk
      generalize a.get? k = x
      generalize b.get? k = y
      rintro (_ | _) <;> simp
    have hperm : a.keys.Perm b.keys := (List.perm_ext_iff_of_nodup ha hb).mpr hmem
    refine ⟨by simpa [Dict.keys] using hperm.length_eq, fun entry hentry => ?_⟩
    have hk := h entry.1
    rw [Dict.get?_of_mem ha hentry] at hk
    revert hk
    generalize b.get? entry.1 = y
    rintro (hequal | _)
    exact ⟨_, rfl, hequal⟩

end Equality

/-- No function is kept in a map under the name of a method, where it would be called instead. -/
def Unhidden (m : Dict Value) (method : String) : Prop :=
  ∀ f, m.get? method ≠ some (.function f)

private theorem callMember_unhidden {m : Dict Value} {name : String} (h : Unhidden m name)
    (env : Environment) (args : List Value) :
    env.callMember (map m) name args = mapMethod m name args := by
  rw [Environment.callMember]
  split
  · next f hf => exact absurd hf (h f)
  · rfl

/-- What a key is to a map in each of the ways to read it: the map holds the key or does not, and
there is one value under it. -/
structure Viewed (env : Environment) (m : Dict Value) (k : String) (held : Prop) : Prop where
  within : Answers (binary .within (text k) (map m)) held
  index : (∃ v, (map m).index (text k) = .ok v) ↔ held
  member : (∃ v, (map m).member k = .ok v) ↔ held
  listed : ∃ keys, Builtin.list.call [map m] = .ok keys ∧
    Answers (binary .within (text k) keys) held
  keys : Unhidden m "keys" → ∃ keys, env.callMember (map m) "keys" [] = .ok keys ∧
    Answers (binary .within (text k) keys) held
  same : ∀ v, (map m).index (text k) = .ok v → (map m).member k = .ok v ∧
    (Unhidden m "get" → ∀ d, env.callMember (map m) "get" [text k, d] = .ok v)
  default : ¬ held → Unhidden m "get" → ∀ d, env.callMember (map m) "get" [text k, d] = .ok d

private theorem contains_keys (m : Dict Value) (k : String) :
    Answers (binary .within (text k) (list (m.keys.map text))) (k ∈ m.keys) := by
  refine ⟨(m.keys.map text).any fun v => v.equal (text k), rfl, ?_⟩
  simp [equal, List.any_eq_true]

private theorem mapMethod_get (m : Dict Value) (k : String) (d : Value) :
    mapMethod m "get" [text k, d] = .ok ((m.get? k).getD d) := rfl

private theorem index_map (m : Dict Value) (k : String) :
    (map m).index (text k) = (m.get? k).elim (.error (.key (text k).repr)) .ok := by
  rw [index]
  cases m.get? k <;> rfl

private theorem member_map (m : Dict Value) (k : String) :
    (map m).member k = (m.get? k).elim (.error (noMember (map m) k)) .ok := by
  rw [member]
  cases m.get? k <;> rfl

private theorem succeeds_iff {v? : Option Value} {e : EvalError} :
    (∃ v, (v?.elim (.error e) .ok : Except EvalError Value) = .ok v) ↔ v?.isSome = true := by
  cases v? <;> simp

private theorem viewed (env : Environment) (m : Dict Value) (k : String) :
    Viewed env m k (k ∈ m.keys) where
  within := ⟨Dict.has k m, rfl, Dict.mem_keys_iff.symm⟩
  index := by rw [index_map, succeeds_iff, Dict.mem_keys_iff]
  member := by rw [member_map, succeeds_iff, Dict.mem_keys_iff]
  listed := by
    have hlist : Builtin.list.call [map m] = .ok (list (m.map fun entry => text entry.1)) := rfl
    have hkeys : (m.map fun entry => text entry.1) = m.keys.map text := by simp [Dict.keys]
    exact ⟨_, hlist, hkeys ▸ contains_keys m k⟩
  keys h := ⟨_, callMember_unhidden h env [], contains_keys m k⟩
  same v hv := by
    rw [index_map] at hv
    cases hget : m.get? k with
    | none =>
      rw [hget] at hv
      cases hv
    | some w =>
      rw [hget] at hv
      cases hv
      refine ⟨by rw [member_map, hget]; rfl, fun h d => ?_⟩
      rw [callMember_unhidden h, mapMethod_get, hget, Option.getD_some]
  default hk h d := by
    rw [callMember_unhidden h, mapMethod_get, Dict.get?_of_not_mem hk, Option.getD_none]

private theorem rows_map {α : Type} (items : List α) (f g : α → Value) :
    rows [items.map f, items.map g] = items.map fun item => [f item, g item] := by
  refine List.ext_getElem (by simp [rows]) fun i hi _ => ?_
  have hlength : i < items.length := by simpa [rows] using hi
  simp [rows, hlength]

private theorem listed (env : Environment) (m : Dict Value) : ∃ n,
    Builtin.len.call [map m] = .ok n ∧
    (Unhidden m "keys" → Unhidden m "values" → ∃ keys values,
      env.callMember (map m) "keys" [] = .ok keys ∧
      env.callMember (map m) "values" [] = .ok values ∧
      Builtin.len.call [keys] = .ok n ∧ Builtin.len.call [values] = .ok n ∧
      (Unhidden m "items" →
        env.callMember (map m) "items" [] = Builtin.zip.call [keys, values])) := by
  refine ⟨ofNat m.length, rfl, fun hkeys hvalues =>
    ⟨list (m.keys.map text), list m.values, callMember_unhidden hkeys env [],
      callMember_unhidden hvalues env [], ?_, ?_, fun hitems => ?_⟩⟩
  · have hlen : Builtin.len.call [list (m.keys.map text)] = .ok (ofNat (m.keys.map text).length) :=
      rfl
    rw [hlen, List.length_map, Dict.keys, List.length_map]
  · have hlen : Builtin.len.call [list m.values] = .ok (ofNat m.values.length) := rfl
    rw [hlen, Dict.values, List.length_map]
  · have hzip : Builtin.zip.call [list (m.keys.map text), list m.values] =
        .ok (list ((rows [m.keys.map text, m.values]).map list)) := rfl
    have hkeys : m.keys.map text = m.map fun entry => text entry.1 := by simp [Dict.keys]
    rw [callMember_unhidden hitems, hzip, hkeys, Dict.values, rows_map, List.map_map]
    rfl

/-- A map that is written out with texts for keys holds each of them once, where it was first
written, with the value written last. All the ways to read a map by a key agree, save that a
function kept under the name of a method is called instead of the method; the lists of its keys,
values and items go together; and two such maps are equal just if they hold equal values under the
same keys, in whatever order. -/
theorem map_views {env : Environment} {entries : List (Expr × Expr)}
    {pairs : List (String × Value)} (h : Expr.Sets env entries pairs) :
    ∃ m : Dict Value, (Expr.dict entries).eval env = .ok (map m) ∧ Settled pairs m ∧
      (∀ k, Viewed env m k (k ∈ pairs.map (·.1))) ∧
      (∃ n, Builtin.len.call [map m] = .ok n ∧
        (Unhidden m "keys" → Unhidden m "values" → ∃ keys values,
          env.callMember (map m) "keys" [] = .ok keys ∧
          env.callMember (map m) "values" [] = .ok values ∧
          Builtin.len.call [keys] = .ok n ∧ Builtin.len.call [values] = .ok n ∧
          (Unhidden m "items" →
            env.callMember (map m) "items" [] = Builtin.zip.call [keys, values]))) ∧
      ∀ entries' pairs' (m' : Dict Value), Expr.Sets env entries' pairs' →
        (Expr.dict entries').eval env = .ok (map m') →
          Answers (binary .eq (map m) (map m')) (∀ k, Alike (m.get? k) (m'.get? k)) := by
  refine ⟨Dict.ofList pairs, Expr.eval_dict h, settled_ofList pairs, fun k => ?_, listed env _,
    fun entries' pairs' m' h' hm' => ?_⟩
  · have hheld : k ∈ (Dict.ofList pairs).keys ↔ k ∈ pairs.map (·.1) := Dict.mem_keys_ofList
    rw [← propext hheld]
    exact viewed env _ k
  · rw [Expr.eval_dict h'] at hm'
    cases hm'
    exact ⟨_, rfl, equal_map_iff (Dict.keys_ofList_nodup pairs) (Dict.keys_ofList_nodup pairs')⟩

/-- A key that is written twice keeps its place, and the order does not matter to equality. -/
theorem map_views_repeated :
    let env : Environment := ⟨fun _ => Option.none, fun name _ => .error (.undefinedName name)⟩
    let key (k : String) : Expr := .literal (.text k)
    let entries : List (Expr × Expr) := [(key "b", .literal (.int 1)), (key "a", .name "len"),
      (key "b", .literal (.bool true))]
    let pairs : List (String × Value) := [("b", .int 1), ("a", .function (.builtin .len)),
      ("b", .bool true)]
    let m : Dict Value := [("b", .bool true), ("a", .function (.builtin .len))]
    Expr.Sets env entries pairs ∧ (Expr.dict entries).eval env = .ok (map m) ∧
      env.callMember (map m) "get" [.text "b", .none] = .ok (.bool true) ∧
      binary .eq (map m) (map m.reverse) = .ok (.bool true) := by
  intro env key entries pairs m
  have hsets : Expr.Sets env entries pairs :=
    .cons ⟨rfl, rfl⟩ (.cons ⟨rfl, rfl⟩ (.cons ⟨rfl, rfl⟩ .nil))
  have hreverse : Expr.Sets env [(key "a", .name "len"), (key "b", .literal (.bool true))]
      m.reverse := .cons ⟨rfl, rfl⟩ (.cons ⟨rfl, rfl⟩ .nil)
  obtain ⟨m', hm, -, hviews, -, hequal⟩ := map_views hsets
  have hm' : (Expr.dict entries).eval env = .ok (map m) := rfl
  rw [hm'] at hm
  cases hm
  have hplain : Unhidden m "get" := by
    intro f hf
    simp [m, Dict.get?] at hf
  refine ⟨hsets, hm', ((hviews "b").same _ rfl).2 hplain _, ?_⟩
  refine (hequal _ _ m.reverse hreverse rfl).holds fun k => ?_
  by_cases hb : "b" = k
  · subst hb
    exact .some rfl
  · by_cases ha : "a" = k
    · subst ha
      exact .some rfl
    · have hkeys : k ∉ m.keys := by simp [m, Dict.keys, Ne.symm hb, Ne.symm ha]
      have hkeys' : k ∉ Dict.keys m.reverse := by simp [m, Dict.keys, Ne.symm hb, Ne.symm ha]
      rw [Dict.get?_of_not_mem hkeys, Dict.get?_of_not_mem hkeys']
      exact .none

/-- A key under which a map keeps a function is in the map, and not in its keys where it is the name
of their method. -/
theorem map_views_hidden :
    let env : Environment := ⟨fun _ => Option.none, fun name _ => .error (.undefinedName name)⟩
    ∃ k m : Expr, Expr.parse "'keys' in \x7b'keys': str\x7d" = .ok (.binary .within k m) ∧
      Expr.parse "'keys' in \x7b'keys': str\x7d.keys()" =
        .ok (.binary .within k (.call (.member m "keys") [])) ∧
      (Expr.binary .within k m).eval env = .ok (.bool true) ∧
      (Expr.binary .within k (.call (.member m "keys") [])).eval env = .ok (.bool false) :=
  ⟨.literal (.text "keys"), .dict [(.literal (.text "keys"), .name "str")], by rfl, by rfl, rfl,
    rfl⟩

end Value

end Stencil
