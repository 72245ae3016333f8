import Mathlib.Data.Finset.Card
import Mathlib.Data.Finset.Option
import Stencil.Proofs.Loader.Caching
import Stencil.Proofs.Value.Dict

/-!
# The order of last use

A cache never holds more keys than its capacity, and a key that was used stays until as many other
keys have been used after it.
-/

namespace Stencil

namespace Recent

variable {α : Type} {c : Recent α} {k : Nat} {key other : String} {v : α}

private def promote (c : Recent α) (key : String) (v : α) : Recent α :=
  { c with entries := (key, v) :: Dict.remove key c.entries }

private theorem touch_found (h : c.peek? key = some v) : c.touch key = c.promote key v := by
  rw [touch, h]
  rfl

private theorem touch_missed (h : c.peek? key = none) : c.touch key = c := by
  rw [touch, h]

private theorem peek?_promote (c : Recent α) (key other : String) (v : α) :
    (c.promote key v).peek? other = if key = other then some v else c.peek? other := by
  change Dict.get? other ((key, v) :: Dict.remove key c.entries) = _
  rw [Dict.get?, Dict.get?_remove]
  split <;> rfl

private theorem peek?_touch (c : Recent α) (key other : String) :
    (c.touch key).peek? other = c.peek? other := by
  cases h : c.peek? key with
  | none => rw [touch_missed h]
  | some w =>
    rw [touch_found h, peek?_promote]
    split
    · next he => rw [← he, h]
    · rfl

private theorem peek?_of_trim (h : c.trim.peek? key = some v) : c.peek? key = some v := by
  rw [trim] at h
  split at h
  · exact h
  · change Dict.get? key (c.entries.take c.capacity) = some v at h
    rw [peek?, ← List.take_append_drop c.capacity c.entries, Dict.get?_append, h]
    rfl

/-- Distinct keys, and no more of them than the capacity, unless that is zero. -/
structure Sound (k : Nat) (c : Recent α) : Prop where
  capacity : c.capacity = k
  nodup : (Dict.keys c.entries).Nodup
  bounded : k ≠ 0 → c.entries.length ≤ k

private theorem sound_empty (k : Nat) : (empty k : Recent α).Sound k :=
  ⟨rfl, List.nodup_nil, fun _ => Nat.zero_le k⟩

private theorem trim_of_le (h : c.capacity ≠ 0 → c.entries.length ≤ c.capacity) : c.trim = c := by
  unfold trim
  split
  · rfl
  · next hk => rw [List.take_of_length_le (h hk)]

namespace Sound

private theorem has_iff (c : Recent α) (key : String) :
    c.has key = true ↔ key ∈ Dict.keys c.entries :=
  Dict.mem_keys_iff.symm

private theorem nodup_promote (h : c.Sound k) (key : String) (v : α) :
    (Dict.keys (c.promote key v).entries).Nodup := by
  have hkeys : Dict.keys (c.promote key v).entries =
      key :: (Dict.keys c.entries).filter (· != key) := by
    rw [← Dict.keys_remove]
    rfl
  rw [hkeys, List.nodup_cons]
  exact ⟨by simp, h.nodup.filter _⟩

private theorem promote (h : c.Sound k) (v : α)
    (hroom : k ≠ 0 → c.has key = true ∨ c.entries.length < k) : (c.promote key v).Sound k := by
  refine ⟨h.capacity, h.nodup_promote key v, fun hk => ?_⟩
  change (Dict.remove key c.entries).length + 1 ≤ k
  rcases hroom hk with hkey | hless
  · rw [Dict.length_remove h.nodup ((has_iff c key).mp hkey)]
    exact h.bounded hk
  · have hremoved : (Dict.remove key c.entries).length ≤ c.entries.length :=
      List.length_filter_le _ _
    omega

private theorem touch (h : c.Sound k) (key : String) : (c.touch key).Sound k := by
  cases hkey : c.peek? key with
  | none => rwa [touch_missed hkey]
  | some v =>
    rw [touch_found hkey]
    refine h.promote v fun _ => .inl ?_
    rw [has, hkey]
    rfl

private theorem set (h : c.Sound k) (key : String) (v : α) : (c.set key v).Sound k := by
  change (c.promote key v).trim.Sound k
  have hnodup := h.nodup_promote key v
  unfold trim
  split
  · next hk => exact ⟨h.capacity, hnodup, fun hne => absurd (h.capacity.symm.trans hk) hne⟩
  · refine ⟨h.capacity, hnodup.sublist ((List.take_sublist _ _).map _), fun _ => ?_⟩
    rw [← h.capacity]
    exact List.length_take_le _ _

private theorem remove (h : c.Sound k) (key : String) : (c.remove key).Sound k := by
  refine ⟨h.capacity, ?_, fun hk => ?_⟩
  · change (Dict.keys (Dict.remove key c.entries)).Nodup
    rw [Dict.keys_remove]
    exact h.nodup.filter _
  · exact Nat.le_trans (List.length_filter_le _ _) (h.bounded hk)

private theorem clear (h : c.Sound k) : c.clear.Sound k :=
  ⟨h.capacity, List.nodup_nil, fun _ => Nat.zero_le k⟩

private theorem peek?_set (h : c.Sound k) (hroom : c.has key = true ∨ c.entries.length < k) (v : α)
    (other : String) : (c.set key v).peek? other = if key = other then some v else
      c.peek? other := by
  have hpromoted := h.promote v fun _ => hroom
  have htrim : (c.promote key v).trim = c.promote key v :=
    trim_of_le fun hk => hpromoted.capacity ▸ hpromoted.bounded (hpromoted.capacity ▸ hk)
  change (c.promote key v).trim.peek? other = _
  rw [htrim, peek?_promote]

end Sound

/-- A key that has an entry, with only some other keys before it. -/
def Behind (c : Recent α) (key : String) (newer : Finset String) : Prop :=
  ∃ front v back, c.entries = front ++ (key, v) :: back ∧
    ∀ other ∈ Dict.keys front, other ∈ newer.erase key

private theorem behind_promote (c : Recent α) (key : String) (v : α) :
    (c.promote key v).Behind key ∅ :=
  ⟨[], v, Dict.remove key c.entries, rfl, by simp [Dict.keys]⟩

private theorem Sound.behind (h : c.Sound k) (hkey : c.has key = true) :
    ∃ newer, c.Behind key newer := by
  obtain ⟨v, hv⟩ := Option.isSome_iff_exists.mp hkey
  obtain ⟨front, back, he⟩ := List.append_of_mem (Dict.mem_of_get? hv)
  have hnodup := h.nodup
  rw [he, Dict.keys, List.map_append] at hnodup
  refine ⟨(Dict.keys front).toFinset, front, v, back, he, fun other hother => ?_⟩
  have hne : other ≠ key := (List.nodup_append.mp hnodup).2.2 other hother key List.mem_cons_self
  exact Finset.mem_erase.mpr ⟨hne, List.mem_toFinset.mpr hother⟩

namespace Behind

variable {newer : Finset String}

private theorem has (h : c.Behind key newer) : c.has key = true := by
  obtain ⟨front, v, back, he, -⟩ := h
  rw [Sound.has_iff, he]
  simp [Dict.keys]

private theorem mono {newer' : Finset String} (h : c.Behind key newer) (hsub : newer ⊆ newer') :
    c.Behind key newer' := by
  obtain ⟨front, v, back, he, hfront⟩ := h
  exact ⟨front, v, back, he, fun k hk => Finset.erase_subset_erase key hsub (hfront k hk)⟩

private theorem remove (h : c.Behind key newer) (hne : other ≠ key) :
    (c.remove other).Behind key newer := by
  obtain ⟨front, v, back, he, hfront⟩ := h
  refine ⟨Dict.remove other front, v, Dict.remove other back, ?_, fun k hk => ?_⟩
  · change Dict.remove other c.entries = _
    rw [he]
    simp [Dict.remove, Ne.symm hne]
  · rw [Dict.keys_remove] at hk
    exact hfront k (List.mem_of_mem_filter hk)

private theorem promote (h : c.Behind key newer) (hne : other ≠ key) (v : α) :
    (c.promote other v).Behind key (insert other newer) := by
  obtain ⟨front, w, back, he, hfront⟩ := h.remove hne
  refine ⟨(other, v) :: front, w, back, ?_, fun k hk => ?_⟩
  · change (other, v) :: Dict.remove other c.entries = _
    rw [show Dict.remove other c.entries = _ from he]
    rfl
  · rw [Finset.mem_erase, Finset.mem_insert]
    rcases List.mem_cons.mp hk with rfl | hk
    · exact ⟨hne, .inl rfl⟩
    · obtain ⟨hkey, hmem⟩ := Finset.mem_erase.mp (hfront k hk)
      exact ⟨hkey, .inr hmem⟩

private theorem trim (h : c.Behind key newer) (hd : (Dict.keys c.entries).Nodup)
    (hk : c.capacity = 0 ∨ (newer.erase key).card < c.capacity) : c.trim.Behind key newer := by
  unfold Recent.trim
  split
  · exact h
  · next hne =>
    obtain ⟨front, v, back, he, hfront⟩ := h
    have hnodup : (Dict.keys front).Nodup := by
      rw [he] at hd
      exact hd.sublist ((List.sublist_append_left _ _).map _)
    have hlength : front.length < c.capacity :=
      calc front.length = (Dict.keys front).toFinset.card := by
            rw [List.toFinset_card_of_nodup hnodup, Dict.keys, List.length_map]
        _ ≤ (newer.erase key).card :=
            Finset.card_le_card fun k hk => hfront k (List.mem_toFinset.mp hk)
        _ < c.capacity := hk.resolve_left hne
    refine ⟨front, v, back.take (c.capacity - front.length - 1), ?_, hfront⟩
    change c.entries.take c.capacity = _
    obtain ⟨rest, hrest⟩ : ∃ rest, c.capacity = front.length + (rest + 1) :=
      ⟨c.capacity - front.length - 1, by omega⟩
    rw [he, hrest, List.take_length_add_append]
    simp

end Behind

end Recent

namespace Cache

inductive Act (α : Type) where
  | get (key : String)
  | set (key : String) (v : α)
  | remove (key : String)
  | clear
  | has (key : String)

variable {α : Type} {c : Cache α} {k : Nat} {key : String} {a : Act α}

/-- An act that does not take a key out. -/
def Act.Spares (key : String) (a : Act α) : Prop :=
  a ≠ .remove key ∧ a ≠ .clear

def after (c : Cache α) : Act α → Cache α
  | .get key => (c.get? key).2
  | .set key v => c.set key v
  | .remove key => c.remove key
  | .clear => c.clear
  | .has _ => c

/-- The key that an act uses: one that is set, or looked up and found. -/
def used? (c : Cache α) : Act α → Option String
  | .get key => if (c.get? key).1.isSome then some key else none
  | .set key _ => some key
  | _ => none

def used (c : Cache α) : List (Act α) → Finset String
  | [] => ∅
  | a :: acts => (c.used? a).toFinset ∪ (c.after a).used acts

/-- A key was set to a value, and has neither been set nor taken out since. -/
def LastSet (key : String) (v : α) (acts : List (Act α)) : Prop :=
  ∃ before after, acts = before ++ .set key v :: after ∧
    ∀ a ∈ after, a.Spares key ∧ ∀ w, a ≠ .set key w

def Sound (k : Nat) : Cache α → Prop
  | off => False
  | recent r => r.Sound k

def Behind (key : String) (newer : Finset String) : Cache α → Prop
  | off => False
  | recent r => r.Behind key newer

private theorem Sound.after (h : c.Sound k) (a : Act α) : (c.after a).Sound k := by
  cases c with
  | off => exact h.elim
  | recent r =>
    have hr : r.Sound k := h
    cases a with
    | get key => exact hr.touch key
    | set key v => exact hr.set key v
    | remove key => exact hr.remove key
    | clear => exact hr.clear
    | has key => exact hr

private theorem behind_used (h : c.Sound k) (ha : c.used? a = some key) :
    (c.after a).Behind key ∅ := by
  cases c with
  | off => exact h.elim
  | recent r =>
    have hr : r.Sound k := h
    cases a with
    | get other =>
      obtain ⟨hfound, he⟩ := Option.ite_none_right_eq_some.mp ha
      cases he
      obtain ⟨v, hv⟩ := Option.isSome_iff_exists.mp hfound
      change (r.touch key).Behind key ∅
      rw [Recent.touch_found hv]
      exact r.behind_promote key v
    | set other v =>
      cases ha
      exact (r.behind_promote key v).trim (hr.nodup_promote key v)
        (by simpa using Nat.eq_zero_or_pos _)
    | remove other => cases ha
    | clear => cases ha
    | has other => cases ha

private theorem Behind.mono {newer newer' : Finset String} (h : c.Behind key newer)
    (hsub : newer ⊆ newer') : c.Behind key newer' := by
  cases c with
  | off => exact h
  | recent r => exact Recent.Behind.mono h hsub

private theorem Behind.after {newer : Finset String} (h : c.Behind key newer) (hs : c.Sound k)
    (ha : a.Spares key) (hk : k = 0 ∨ ((newer ∪ (c.used? a).toFinset).erase key).card < k) :
    (c.after a).Behind key (newer ∪ (c.used? a).toFinset) := by
  -- An act that uses the key itself puts it first, so that only other keys can come before it.
  by_cases hself : c.used? a = some key
  · exact (behind_used hs hself).mono (Finset.empty_subset _)
  cases c with
  | off => exact hs.elim
  | recent r =>
    have hr : r.Sound k := hs
    have hb : r.Behind key newer := h
    cases a with
    | get other =>
      change (r.touch other).Behind key _
      cases hv : r.peek? other with
      | none =>
        rw [Recent.touch_missed hv]
        exact hb.mono Finset.subset_union_left
      | some v =>
        have hused : (recent r).used? (.get other) = some other := by simp [used?, get?, hv]
        have hne : other ≠ key := fun he => hself (he ▸ hused)
        rw [Recent.touch_found hv, hused]
        exact (hb.promote hne v).mono (by
          rw [Option.toFinset_some, Finset.insert_eq, Finset.union_comm])
    | set other v =>
      have hne : other ≠ key := fun he => hself (he ▸ rfl)
      have hpromoted : (r.promote other v).Behind key (newer ∪ {other}) :=
        (hb.promote hne v).mono (by rw [Finset.insert_eq, Finset.union_comm])
      exact hpromoted.trim (hr.nodup_promote other v) (hr.capacity ▸ hk)
    | remove other =>
      have hne : other ≠ key := fun he => ha.1 (he ▸ rfl)
      exact (hb.remove hne).mono Finset.subset_union_left
    | clear => exact absurd rfl ha.2
    | has other => exact hb.mono Finset.subset_union_left

/-- A key stays behind the keys that are used, as long as these are fewer than the capacity. -/
private theorem Behind.run {newer : Finset String} (h : c.Behind key newer) (hs : c.Sound k)
    {acts : List (Act α)} (ha : ∀ a ∈ acts, a.Spares key)
    (hk : k = 0 ∨ ((newer ∪ c.used acts).erase key).card < k) :
    (acts.foldl Cache.after c).Behind key (newer ∪ c.used acts) := by
  -- The keys used so far grow along the acts; only together with those to come are they bounded.
  induction acts generalizing c newer with
  | nil => exact h.mono Finset.subset_union_left
  | cons a acts ih =>
    obtain ⟨hfirst, hrest⟩ := List.forall_mem_cons.mp ha
    rw [used, ← Finset.union_assoc] at hk ⊢
    have hless : k = 0 ∨ ((newer ∪ (c.used? a).toFinset).erase key).card < k :=
      hk.imp id fun hk => Nat.lt_of_le_of_lt
        (Finset.card_le_card (Finset.erase_subset_erase key Finset.subset_union_left)) hk
    exact ih (h.after hs hfirst hless) (hs.after a) hrest hk

private theorem Sound.run (h : c.Sound k) (acts : List (Act α)) :
    (acts.foldl Cache.after c).Sound k := by
  induction acts generalizing c with
  | nil => exact h
  | cons a acts ih => exact ih (h.after a)

private theorem get?_after {v : α} (h : ((c.after a).get? key).1 = some v) :
    a = .set key v ∨ (c.get? key).1 = some v ∧ a.Spares key ∧ ∀ w, a ≠ .set key w := by
  cases c with
  | off => cases a <;> cases h
  | recent r =>
    cases a with
    | get other =>
      have hv : (r.touch other).peek? key = some v := h
      rw [Recent.peek?_touch] at hv
      exact .inr ⟨hv, by simp [Act.Spares], by simp⟩
    | set other w =>
      have hv := Recent.peek?_of_trim (show (r.promote other w).trim.peek? key = some v from h)
      rw [Recent.peek?_promote] at hv
      split at hv
      · next he =>
        cases hv
        exact .inl (he ▸ rfl)
      · next hne => exact .inr ⟨hv, by simp [Act.Spares], by simp [hne]⟩
    | remove other =>
      have hv : Dict.get? key (Dict.remove other r.entries) = some v := h
      rw [Dict.get?_remove] at hv
      split at hv
      · cases hv
      · next hne => exact .inr ⟨hv, by simp [Act.Spares, hne], by simp⟩
    | clear => cases h
    | has other => exact .inr ⟨h, by simp [Act.Spares], by simp⟩

private theorem LastSet.snoc {v : α} {acts : List (Act α)} (h : LastSet key v acts)
    (ha : a.Spares key) (hset : ∀ w, a ≠ .set key w) : LastSet key v (acts ++ [a]) := by
  obtain ⟨before, after, rfl, hafter⟩ := h
  refine ⟨before, after ++ [a], by simp, ?_⟩
  simp only [List.forall_mem_append, List.forall_mem_singleton]
  exact ⟨hafter, ha, hset⟩

private theorem lastSet_of_get? {v : α} (acts : List (Act α))
    (h : ((acts.foldl Cache.after (.recent (.empty k))).get? key).1 = some v) :
    LastSet key v acts := by
  -- Acts are taken off the end: what follows the last setting grows there.
  induction acts using List.reverseRecOn with
  | nil => cases h
  | append_singleton acts a ih =>
    rw [List.foldl_append] at h
    rcases get?_after h with rfl | ⟨hv, ha, hset⟩
    · exact ⟨acts, [], rfl, by simp⟩
    · exact (ih hv).snoc ha hset

private theorem Sound.keys (h : c.Sound k) : ∃ keys : Finset String,
    (∀ key, key ∈ keys ↔ c.has key = true) ∧ c.size? = some keys.card ∧
      (k ≠ 0 → keys.card ≤ k) := by
  cases c with
  | off => exact h.elim
  | recent r =>
    have hr : r.Sound k := h
    have hcard : (Dict.keys r.entries).toFinset.card = r.entries.length := by
      rw [List.toFinset_card_of_nodup hr.nodup, Dict.keys, List.length_map]
    refine ⟨(Dict.keys r.entries).toFinset, fun key => ?_, ?_, fun hk => ?_⟩
    · rw [List.mem_toFinset]
      exact (Recent.Sound.has_iff r key).symm
    · rw [hcard]
      rfl
    · rw [hcard]
      exact hr.bounded hk

private theorem Sound.get?_set (h : c.Sound k) {n : Nat} (hn : c.size? = some n)
    (hroom : c.has key = true ∨ n < k) (v : α) (other : String) :
    ((c.set key v).get? other).1 = if key = other then some v else (c.get? other).1 := by
  cases c with
  | off => exact h.elim
  | recent r =>
    cases hn
    exact Recent.Sound.peek?_set h hroom v other

private theorem Behind.has {newer : Finset String} (h : c.Behind key newer) : c.has key = true := by
  cases c with
  | off => exact h.elim
  | recent r => exact Recent.Behind.has h

private theorem Sound.has_after (h : c.Sound 0) (hkey : c.has key = true) (ha : a.Spares key) :
    (c.after a).has key = true := by
  cases c with
  | off => cases hkey
  | recent r =>
    obtain ⟨newer, hbehind⟩ := Recent.Sound.behind h hkey
    have hc : (recent r).Behind key newer := hbehind
    exact (hc.after h ha (.inl rfl)).has

/-- After whatever was done to a cache that began empty: unless its capacity is zero, it holds no
more keys than that; a key that is found has the value last set; setting a key that is cached, or
while there is room, takes no other key out; and a key that was used stays until it is taken out or
as many other keys as the capacity have been used since. With a capacity of zero no key is lost but
by taking it out. -/
theorem recently_used_kept (k : Nat) (acts : List (Act α)) :
    let start : Cache α := .recent (.empty k)
    let c := acts.foldl Cache.after start
    (1 ≤ k → ∃ keys : Finset String, (∀ key, key ∈ keys ↔ c.has key = true) ∧
      c.size? = some keys.card ∧ keys.card ≤ k) ∧
    (∀ key v, (c.get? key).1 = some v → LastSet key v acts) ∧
    (∀ key v n, c.size? = some n → (c.has key = true ∨ n < k) → ∀ other,
      ((c.set key v).get? other).1 = if key = other then some v else (c.get? other).1) ∧
    (∀ before a since key, acts = before ++ a :: since →
      let earlier := before.foldl Cache.after start
      earlier.used? a = some key → (∀ b ∈ since, b ≠ .remove key ∧ b ≠ .clear) →
        (((earlier.after a).used since).erase key).card < k → c.has key = true) ∧
    (k = 0 → ∀ key a, c.has key = true → (c.after a).has key = false →
      a = .remove key ∨ a = .clear) := by
  intro start c
  have hstart : start.Sound k := Recent.sound_empty k
  have hc : c.Sound k := hstart.run acts
  refine ⟨fun hk => ?_, fun key v => lastSet_of_get? acts, fun key v n hn hroom => ?_, ?_, ?_⟩
  · obtain ⟨keys, hkeys, hsize, hbound⟩ := hc.keys
    exact ⟨keys, hkeys, hsize, hbound (Nat.ne_of_gt hk)⟩
  · exact hc.get?_set hn hroom v
  · rintro before a since key rfl earlier ha hspares hless
    have hthen : earlier.Sound k := hstart.run before
    have hbehind := (behind_used hthen ha).run (hthen.after a) hspares
      (.inr (by rwa [Finset.empty_union]))
    change ((before ++ a :: since).foldl Cache.after start).has key = true
    rw [List.foldl_append]
    exact hbehind.has
  · rintro rfl key a hkey hlost
    by_contra hspares
    rw [hc.has_after hkey (not_or.mp hspares)] at hlost
    cases hlost

/-- Looking up a key keeps it in the place of another one. -/
example :
    let acts : List (Act Nat) := [.set "a" 0, .set "b" 1, .get "a", .has "b", .set "c" 2]
    let c := acts.foldl Cache.after (.recent (.empty 2))
    (c.has "a", c.has "b", c.has "c") = (true, false, true) := by
  decide

end Cache

end Stencil
