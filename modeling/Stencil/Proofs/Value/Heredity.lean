import Stencil.Value.Method

/-!
# What operations make values of

A property that lists and maps have just if their parts do, and everything else has that is not a
template, goes over from the operands of every operation to its result.
-/

namespace Stencil

def Yields {ε α : Type} (P : α → Prop) (r : Except ε α) : Prop :=
  ∀ a, r = .ok a → P a

namespace Yields

variable {ε α β : Type} {P : α → Prop} {Q : β → Prop}

theorem ok {a : α} (h : P a) : Yields P (.ok a : Except ε α) := by
  rintro _ ⟨⟩
  exact h

theorem error (e : ε) : Yields P (.error e : Except ε α) := by
  rintro _ ⟨⟩

theorem any (r : Except ε α) : Yields (fun _ => True) r :=
  fun _ _ => trivial

theorem bind {x : Except ε β} {k : β → Except ε α} (hx : Yields Q x)
    (hk : ∀ b, Q b → Yields P (k b)) : Yields P (x >>= k) := by
  cases x with
  | error e => exact .error e
  | ok b => exact hk b (hx b rfl)

theorem after {x : Except ε β} {k : β → Except ε α} (hk : ∀ b, Yields P (k b)) :
    Yields P (x >>= k) :=
  (any x).bind fun b _ => hk b

private theorem map {x : Except ε β} {f : β → α} (hx : Yields Q x) (hf : ∀ b, Q b → P (f b)) :
    Yields P (x.map f) := by
  cases x with
  | error e => exact .error e
  | ok b => exact .ok (hf b (hx b rfl))

private theorem mapM {f : β → Except ε α} {bs : List β} (h : ∀ b ∈ bs, Yields P (f b)) :
    Yields (fun as => ∀ a ∈ as, P a) (bs.mapM f) := by
  induction bs with
  | nil => exact .ok fun _ hm => (List.not_mem_nil hm).elim
  | cons b bs ih =>
    obtain ⟨hfirst, hrest⟩ := List.forall_mem_cons.mp h
    rw [List.mapM_cons]
    exact hfirst.bind fun a ha => (ih hrest).bind fun as has =>
      .ok (List.forall_mem_cons.mpr ⟨ha, has⟩)

private theorem foldlM {f : α → β → Except ε α} {bs : List β}
    (h : ∀ a, P a → ∀ b ∈ bs, Yields P (f a b)) {a : α} (ha : P a) : Yields P (bs.foldlM f a) := by
  induction bs generalizing a with
  | nil => exact .ok ha
  | cons b bs ih =>
    rw [List.foldlM_cons]
    refine (h a ha b List.mem_cons_self).bind fun a' ha' => ?_
    exact ih (fun c hc d hd => h c hc d (List.mem_cons_of_mem _ hd)) ha'

end Yields

namespace Value

/-- A property that comes down to the templates in a value. -/
structure Hereditary (P : Value → Prop) : Prop where
  none : P .none
  bool : ∀ b, P (.bool b)
  int : ∀ i, P (.int i)
  real : ∀ x, P (.real x)
  text : ∀ s, P (.text s)
  function : ∀ f, P (.function f)
  list : ∀ items, P (.list items) ↔ ∀ v ∈ items, P v
  map : ∀ entries, P (.map entries) ↔ ∀ entry ∈ entries, P entry.2

namespace Hereditary

variable {P : Value → Prop}

theorem literal (h : Hereditary P) (c : Literal) : P (.ofLiteral c) := by
  cases c with
  | none => exact h.none
  | bool b => exact h.bool b
  | int i => exact h.int i
  | real x => exact h.real x
  | text s => exact h.text s

private theorem list_map (h : Hereditary P) {α : Type} (as : List α) {f : α → Value}
    (hf : ∀ a, P (f a)) : P (.list (as.map f)) := by
  rw [h.list]
  intro v hv
  obtain ⟨a, -, rfl⟩ := List.mem_map.mp hv
  exact hf a

private theorem get (h : Hereditary P) {entries : Dict Value} (he : P (.map entries)) {key : String}
    {v : Value} (hv : Dict.get? key entries = some v) : P v := by
  rw [h.map] at he
  induction entries with
  | nil => cases hv
  | cons entry entries ih =>
    obtain ⟨hfirst, hrest⟩ := List.forall_mem_cons.mp he
    rw [Dict.get?] at hv
    split at hv
    · cases hv
      exact hfirst
    · exact ih hrest hv

theorem iterate (h : Hereditary P) {v : Value} (hv : P v) :
    Yields (fun items => ∀ item ∈ items, P item) v.iterate := by
  cases v with
  | list items => exact .ok ((h.list items).mp hv)
  | text s =>
    refine .ok fun item hitem => ?_
    obtain ⟨c, -, rfl⟩ := List.mem_map.mp hitem
    exact h.text _
  | map entries =>
    refine .ok fun item hitem => ?_
    obtain ⟨entry, -, rfl⟩ := List.mem_map.mp hitem
    exact h.text _
  | _ => exact .error _

section Operators

private theorem fitted (h : Hereditary P) (o : Option Int64) : Yields P (fitted o) := by
  cases o with
  | none => exact .error _
  | some i => exact .ok (h.int i)

private theorem integerArithmetic (h : Hereditary P) (op : BinaryOp) (a b : Int64) :
    Yields P (integerArithmetic op a b) := by
  unfold Value.integerArithmetic
  repeat' split
  all_goals first
    | exact h.fitted _
    | exact .error _
    | exact .ok (h.real _)

private theorem arithmetic (h : Hereditary P) (op : BinaryOp) (a b : Value) :
    Yields P (arithmetic op a b) := by
  unfold Value.arithmetic
  split
  · exact h.integerArithmetic op _ _
  · exact (Yields.any _).map fun x _ => h.real x
  · exact .error _

private theorem repeatText (h : Hereditary P) (s : String) (n : Int64) :
    Yields P (repeatText s n) :=
  (Yields.any _).map fun _ _ => h.text _

private theorem repeatList (h : Hereditary P) {items : List Value} (hi : P (.list items))
    (n : Int64) :
    Yields P (repeatList items n) := by
  refine (Yields.any _).map fun count _ => ?_
  rw [h.list]
  intro v hv
  obtain ⟨part, hpart, hv⟩ := List.mem_flatten.mp hv
  rw [(List.mem_replicate.mp hpart).2] at hv
  exact (h.list items).mp hi v hv

theorem binary (h : Hereditary P) {a b : Value} (ha : P a) (hb : P b) (op : BinaryOp) :
    Yields P (binary op a b) := by
  have htruth : ∀ {α : Type} (r : Except EvalError α) (f : α → Bool),
      Yields P (r.map fun x => .bool (f x)) := fun r f => (Yields.any r).map fun x _ => h.bool (f x)
  unfold Value.binary
  split
  · exact .ok (by split <;> assumption)
  · exact .ok (by split <;> assumption)
  · exact .ok (h.bool _)
  · exact .ok (h.bool _)
  · exact htruth _ _
  · exact htruth _ _
  · exact htruth _ _
  · exact htruth _ _
  · exact htruth _ id
  · exact htruth _ _
  · exact .ok (h.bool _)
  · exact .ok (h.bool _)
  · split
    · exact .ok (h.text _)
    · exact .ok ((h.list _).mpr (List.forall_mem_append.mpr ⟨(h.list _).mp ha, (h.list _).mp hb⟩))
    · exact h.arithmetic _ _ _
  · split
    · exact h.repeatText _ _
    · exact h.repeatText _ _
    · exact h.repeatList ha _
    · exact h.repeatList hb _
    · exact h.arithmetic _ _ _
  · exact h.arithmetic _ _ _

theorem unary (h : Hereditary P) (op : UnaryOp) (v : Value) : Yields P (unary op v) := by
  unfold Value.unary
  repeat' split
  all_goals first
    | exact h.fitted _
    | exact .error _
    | exact .ok (h.bool _)
    | exact .ok (h.int _)
    | exact .ok (h.real _)

end Operators

section Parts

theorem member (h : Hereditary P) {v : Value} (hv : P v) (name : String) :
    Yields P (v.member name) := by
  unfold Value.member
  split
  · split
    · next hw => exact .ok (h.get hv hw)
    · exact .error _
  · split
    · exact .ok (h.text _)
    · exact .error _
  · exact .error _

private theorem at? {α : Type} {items : List α} {i : Int64} {a : α} (ha : at? items i = some a) :
    a ∈ items := by
  unfold Value.at? at ha
  generalize (if i.toInt < 0 then i.toInt + items.length else i.toInt) = place at ha
  dsimp only at ha
  split at ha
  · cases ha
  · exact List.mem_of_getElem? ha

theorem index (h : Hereditary P) {v : Value} (hv : P v) (i : Value) : Yields P (v.index i) := by
  unfold Value.index
  split
  · split
    · next hw => exact .ok ((h.list _).mp hv _ (at? hw))
    · exact .error _
  · split
    · exact .ok (h.text _)
    · exact .error _
  · split
    · next hw => exact .ok (h.get hv hw)
    · exact .error _
  all_goals exact .error _

theorem slice (h : Hereditary P) {v : Value} (hv : P v) (lower upper : Option Value) :
    Yields P (v.slice lower upper) := by
  unfold Value.slice
  split
  · have hitems := (h.list _).mp hv
    have hsub : Yields (fun part => ∀ item ∈ part, P item) (sliceItems _ lower upper) :=
      Yields.after fun _ => .ok fun item hitem =>
        hitems item (List.mem_of_mem_take (List.mem_of_mem_drop hitem))
    exact hsub.map fun part hpart => (h.list part).mpr hpart
  · exact (Yields.any _).map fun _ _ => h.text _
  · exact .error _

end Parts

section Functions

private theorem insertItem {item : Value} (hi : P item) {items : List Value}
    (h : ∀ v ∈ items, P v) :
    Yields (fun items => ∀ v ∈ items, P v) (insertItem item items) := by
  induction items with
  | nil => exact .ok (List.forall_mem_singleton.mpr hi)
  | cons top rest ih =>
    obtain ⟨htop, hrest⟩ := List.forall_mem_cons.mp h
    unfold Value.insertItem
    split
    · exact (ih hrest).map fun items hitems => List.forall_mem_cons.mpr ⟨htop, hitems⟩
    · exact .ok (List.forall_mem_cons.mpr ⟨hi, h⟩)
    · exact .error _

private theorem sortItems {items : List Value} (h : ∀ v ∈ items, P v) :
    Yields (fun items => ∀ v ∈ items, P v) (sortItems items) := by
  have hnil : ∀ v ∈ ([] : List Value), P v := fun _ hm => (List.not_mem_nil hm).elim
  have hfold := Yields.foldlM (fun done hdone item hitem => insertItem (h item hitem) hdone) hnil
  refine hfold.map fun done hdone v hv => hdone v (List.mem_reverse.mp hv)

private theorem extreme {wanted : Ordering} {best : Value} (hb : P best) {items : List Value}
    (h : ∀ v ∈ items, P v) : Yields P (extreme wanted best items) := by
  induction items generalizing best with
  | nil => exact .ok hb
  | cons item rest ih =>
    obtain ⟨hitem, hrest⟩ := List.forall_mem_cons.mp h
    unfold Value.extreme
    split
    · refine ih ?_ hrest
      split
      · exact hitem
      · exact hb
    · exact .error _

private theorem best (h : Hereditary P) {name : String} {wanted : Ordering} {args : List Value}
    (ha : ∀ v ∈ args, P v) : Yields P (best name wanted args) := by
  have hcandidates : Yields (fun items => ∀ v ∈ items, P v) (candidates name args) := by
    unfold candidates
    split
    · exact .error _
    · exact h.iterate (ha _ List.mem_cons_self)
    · exact .ok ha
  refine hcandidates.bind fun items hitems => ?_
  split
  · exact .error _
  · obtain ⟨hfirst, hrest⟩ := List.forall_mem_cons.mp hitems
    exact extreme hfirst hrest

private theorem rows {columns : List (List Value)} (h : ∀ column ∈ columns, ∀ v ∈ column, P v) :
    ∀ row ∈ rows columns, ∀ v ∈ row, P v := by
  intro row hrow v hv
  unfold Value.rows at hrow
  split at hrow
  · cases hrow
  · obtain ⟨i, -, rfl⟩ := List.mem_map.mp hrow
    obtain ⟨column, hcolumn, hi⟩ := List.mem_filterMap.mp hv
    exact h column hcolumn v (List.mem_of_getElem? hi)

private theorem headD {args : List Value} (ha : ∀ v ∈ args, P v) {default : Value}
    (hd : P default) :
    P (args.headD default) := by
  cases args with
  | nil => exact hd
  | cons v args => exact ha v List.mem_cons_self

private theorem getD {args : List Value} (ha : ∀ v ∈ args, P v) (i : Nat) {default : Value}
    (hd : P default) : P (args[i]?.getD default) := by
  cases hi : args[i]? with
  | none => exact hd
  | some v => exact ha v (List.mem_of_getElem? hi)

private theorem range (h : Hereditary P) (start stop step : Int64) :
    Yields P (Value.range start stop step) := by
  unfold Value.range
  split
  · exact .error _
  · exact .ok (h.list_map _ fun _ => h.int _)

private theorem length (h : Hereditary P) (v : Value) : Yields P v.length := by
  unfold Value.length
  split
  all_goals first
    | exact .ok (h.int _)
    | exact .error _

private theorem toInt (h : Hereditary P) (v : Value) : Yields P v.toInt := by
  unfold Value.toInt
  repeat' split
  all_goals first
    | exact .ok (h.int _)
    | exact .error _

private theorem toReal (h : Hereditary P) (v : Value) : Yields P v.toReal := by
  unfold Value.toReal
  repeat' split
  all_goals first
    | exact .ok (h.real _)
    | exact .error _

private theorem magnitude (h : Hereditary P) (v : Value) : Yields P v.magnitude := by
  unfold Value.magnitude
  split
  · exact h.fitted _
  · exact .ok (h.int _)
  · exact .ok (h.real _)
  · exact .error _

private theorem numbered (h : Hereditary P) (start : Int64) {items : List Value}
    (hi : ∀ v ∈ items, P v) : P (.list (numbered start items)) := by
  rw [h.list]
  intro v hv
  obtain ⟨i, hlt, rfl⟩ := List.mem_mapIdx.mp hv
  refine (h.list _).mpr (List.forall_mem_cons.mpr ⟨h.int _, ?_⟩)
  exact List.forall_mem_singleton.mpr (hi _ (List.getElem_mem hlt))

theorem builtin (h : Hereditary P) (f : Builtin) {args : List Value} (ha : ∀ v ∈ args, P v) :
    Yields P (f.call args) := by
  have hitems : ∀ {default : Value}, P default →
      Yields (fun items => ∀ v ∈ items, P v) (args.headD default).iterate :=
    fun hd => h.iterate (headD ha hd)
  have hempty : P (.list []) := (h.list []).mpr fun _ hm => (List.not_mem_nil hm).elim
  cases f with
  | range =>
    refine .after fun _ => .after fun numbers => ?_
    split
    · exact h.range _ _ _
    · exact h.range _ _ _
    · exact h.range _ _ _
    · exact .ok hempty
  | len => exact .after fun _ => h.length _
  | str => exact .after fun _ => .ok (h.text _)
  | int => exact .after fun _ => h.toInt _
  | float => exact .after fun _ => h.toReal _
  | bool => exact .after fun _ => .ok (h.bool _)
  | abs => exact .after fun _ => h.magnitude _
  | min => exact h.best ha
  | max => exact h.best ha
  | sum =>
    refine .after fun _ => (hitems h.none).bind fun items hi => ?_
    exact Yields.foldlM (fun total ht item hitem => h.binary ht (hi item hitem) .add)
      (getD ha 1 (h.int 0))
  | sorted =>
    refine .after fun _ => (hitems h.none).bind fun items hi => ?_
    exact (sortItems hi).bind fun items hi => .ok ((h.list items).mpr hi)
  | reversed =>
    refine .after fun _ => (hitems h.none).bind fun items hi => .ok ((h.list _).mpr ?_)
    exact fun v hv => hi v (List.mem_reverse.mp hv)
  | enumerate =>
    refine .after fun _ => .after fun start => (hitems h.none).bind fun items hi => ?_
    exact .ok (h.numbered start hi)
  | zip =>
    refine (Yields.mapM fun v hv => h.iterate (ha v hv)).bind fun columns hcolumns => .ok ?_
    rw [h.list]
    intro v hv
    obtain ⟨row, hrow, rfl⟩ := List.mem_map.mp hv
    exact (h.list row).mpr (rows hcolumns row hrow)
  | list => exact .after fun _ => (hitems hempty).bind fun items hi => .ok ((h.list items).mpr hi)

end Functions

section Methods

private theorem textMethod (h : Hereditary P) (cs : List Char) (name : String) (args : List Value) :
    Yields P (textMethod cs name args) := by
  unfold Value.textMethod
  split
  all_goals repeat' first
    | exact .error _
    | exact .ok (h.text _)
    | exact .ok (h.bool _)
    | exact .ok (h.int _)
    | exact .ok (h.list_map _ fun _ => h.text _)
    | refine .after fun _ => ?_
    | split

private theorem listMethod (h : Hereditary P) (items : List Value) (name : String)
    (args : List Value) :
    Yields P (listMethod items name args) := by
  unfold Value.listMethod
  split
  · refine .after fun _ => ?_
    dsimp only
    split
    · exact .ok (h.int _)
    · exact .error _
  · exact .after fun _ => .ok (h.int _)
  · exact .error _

private theorem mapMethod (h : Hereditary P) {entries : Dict Value} (he : P (.map entries))
    (name : String) {args : List Value} (ha : ∀ v ∈ args, P v) :
    Yields P (mapMethod entries name args) := by
  have hentries := (h.map entries).mp he
  unfold Value.mapMethod
  split
  · refine .after fun _ => ?_
    have hdefault : P (args[1]?.getD .none) := getD ha 1 h.none
    split
    · next key _ =>
      refine .ok ?_
      cases hg : Dict.get? key entries with
      | none => exact hdefault
      | some v => exact h.get he hg
    · exact .ok hdefault
  · exact .after fun _ => .ok (h.list_map _ fun _ => h.text _)
  · refine .after fun _ => .ok ((h.list _).mpr fun v hv => ?_)
    obtain ⟨entry, hentry, rfl⟩ := List.mem_map.mp hv
    exact hentries entry hentry
  · refine .after fun _ => .ok ((h.list _).mpr fun v hv => ?_)
    obtain ⟨entry, hentry, rfl⟩ := List.mem_map.mp hv
    refine (h.list _).mpr (List.forall_mem_cons.mpr ⟨h.text _, ?_⟩)
    exact List.forall_mem_singleton.mpr (hentries entry hentry)
  · exact .error _

theorem method (h : Hereditary P) {v : Value} (hv : P v) (name : String) {args : List Value}
    (ha : ∀ v ∈ args, P v) : Yields P (v.method name args) := by
  unfold Value.method
  split
  · exact h.textMethod _ name args
  · exact h.listMethod _ name args
  · exact h.mapMethod hv name ha
  · exact .error _

end Methods

end Hereditary

end Value

end Stencil
