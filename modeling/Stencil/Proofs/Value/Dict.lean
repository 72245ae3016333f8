import Mathlib.Data.List.Induction
import Mathlib.Data.List.Nodup
import Stencil.Dict

/-! # Entries of dictionaries -/

namespace Stencil

namespace Dict

variable {α : Type}

theorem get?_of_mem {d : Dict α} (hd : (keys d).Nodup) {entry : String × α} (h : entry ∈ d) :
    d.get? entry.1 = some entry.2 := by
  induction d with
  | nil => cases h
  | cons first d ih =>
    obtain ⟨hfirst, hd⟩ := List.nodup_cons.mp hd
    rw [get?]
    rcases List.mem_cons.mp h with rfl | h
    · exact if_pos rfl
    · have hne : first.1 ≠ entry.1 := by
        intro he
        exact hfirst (List.mem_map.mpr ⟨entry, h, he.symm⟩)
      rw [if_neg hne, ih hd h]

theorem mem_of_get? {key : String} {d : Dict α} {v : α} (h : get? key d = some v) :
    (key, v) ∈ d := by
  induction d with
  | nil => cases h
  | cons entry d ih =>
    obtain ⟨k, w⟩ := entry
    simp only [get?] at h
    split at h
    · next hk =>
      cases h
      rw [hk]
      exact List.mem_cons_self
    · exact List.mem_cons_of_mem _ (ih h)

private theorem set_get? {d : Dict α} {key : String} {v : α} (h : d.get? key = some v) :
    set key v d = d := by
  induction d with
  | nil => cases h
  | cons entry d ih =>
    rw [get?] at h
    rw [set]
    split at h
    · cases h
      rw [if_pos ‹_›]
    · rw [if_neg ‹_›, ih h]

theorem get?_of_not_mem {d : Dict α} {key : String} (h : key ∉ keys d) : d.get? key = none := by
  induction d with
  | nil => rfl
  | cons entry d ih =>
    have hfirst : entry.1 ≠ key := fun he => h (he ▸ List.mem_cons_self)
    rw [get?, if_neg hfirst, ih fun hm => h (List.mem_cons_of_mem _ hm)]

theorem mem_keys_iff {d : Dict α} {key : String} : key ∈ keys d ↔ (d.get? key).isSome = true := by
  induction d with
  | nil => simp [keys, get?]
  | cons entry d ih =>
    have hkeys : keys (entry :: d) = entry.1 :: keys d := rfl
    rw [hkeys, List.mem_cons, ih, get?]
    split
    · next he => simp [he]
    · next he => simp [Ne.symm he]

theorem get?_append (d e : Dict α) (key : String) :
    get? key (d ++ e) = (get? key d).or (get? key e) := by
  induction d with
  | nil => rfl
  | cons entry d ih =>
    rw [List.cons_append, get?, get?, ih]
    split <;> rfl

theorem keys_remove (d : Dict α) (key : String) :
    keys (remove key d) = (keys d).filter (· != key) := by
  rw [keys, keys, remove, List.filter_map]
  rfl

theorem length_remove {d : Dict α} {key : String} (hd : (keys d).Nodup) (h : key ∈ keys d) :
    (remove key d).length + 1 = d.length := by
  have hkeys : (keys (remove key d)).length = (keys d).length - 1 := by
    rw [keys_remove, ← hd.erase_eq_filter, List.length_erase_of_mem h]
  have hpos : 0 < (keys d).length := List.length_pos_of_mem h
  simp only [keys, List.length_map] at hkeys hpos
  omega

private theorem lookup_reverse {d : Dict α} (hd : (keys d).Nodup) (key : String) :
    d.reverse.lookup key = d.get? key := by
  induction d with
  | nil => rfl
  | cons entry d ih =>
    obtain ⟨k, v⟩ := entry
    obtain ⟨hfirst, hd⟩ := List.nodup_cons.mp hd
    rw [List.reverse_cons, List.lookup_append, ih hd, get?, List.lookup_cons]
    by_cases hk : k = key
    · have hnone : get? key d = none := get?_of_not_mem (hk ▸ hfirst)
      simp [hk, hnone]
    · have hother : (key == k) = false := by simpa using Ne.symm hk
      simp [hk, hother]

theorem get?_extend_nodup (d : Dict α) {other : Dict α} (h : (keys other).Nodup) (key : String) :
    get? key (extend d other) = (get? key other).or (get? key d) := by
  rw [get?_extend, lookup_reverse h]

theorem keys_extend_nodup {d : Dict α} (h : (keys d).Nodup) (other : Dict α) :
    (keys (extend d other)).Nodup := by
  induction other generalizing d with
  | nil => exact h
  | cons entry other ih => exact ih (keys_set_nodup h entry.1 entry.2)

private theorem extend_of_disjoint {d other : Dict α} (h : (keys (d ++ other)).Nodup) :
    extend d other = d ++ other := by
  induction other generalizing d with
  | nil => exact (List.append_nil d).symm
  | cons entry other ih =>
    have hfree : entry.1 ∉ keys d := by
      intro hm
      rw [keys, List.map_append, List.map_cons] at h
      exact (List.nodup_append.mp h).2.2 _ hm _ List.mem_cons_self rfl
    rw [List.append_cons] at h ⊢
    rw [← ih h, extend, List.foldl_cons, set_of_not_mem hfree]
    rfl

theorem extend_nil {d : Dict α} (h : (keys d).Nodup) : extend [] d = d :=
  extend_of_disjoint (d := []) h

theorem extend_of_get? {d other : Dict α} (h : ∀ entry ∈ other, d.get? entry.1 = some entry.2) :
    extend d other = d := by
  induction other with
  | nil => rfl
  | cons entry other ih =>
    obtain ⟨hfirst, hrest⟩ := List.forall_mem_cons.mp h
    rw [extend, List.foldl_cons, set_get? hfirst]
    exact ih hrest

theorem mem_set {d : Dict α} {key : String} {v : α} {entry : String × α}
    (h : entry ∈ set key v d) : entry = (key, v) ∨ entry ∈ d := by
  induction d with
  | nil => exact .inl (List.mem_singleton.mp h)
  | cons first d ih =>
    rw [set] at h
    split at h
    · next hk =>
      rcases List.mem_cons.mp h with rfl | h
      · exact .inl (by rw [hk])
      · exact .inr (List.mem_cons_of_mem _ h)
    · rcases List.mem_cons.mp h with rfl | h
      · exact .inr List.mem_cons_self
      · exact (ih h).imp_right (List.mem_cons_of_mem _)

theorem mem_extend {d other : Dict α} {entry : String × α} (h : entry ∈ extend d other) :
    entry ∈ d ∨ entry ∈ other := by
  induction other generalizing d with
  | nil => exact .inl h
  | cons first other ih =>
    rcases ih h with h | h
    · exact (mem_set h).elim (fun he => .inr (he ▸ List.mem_cons_self)) .inl
    · exact .inr (List.mem_cons_of_mem _ h)

private theorem set_set (d : Dict α) (key : String) (v w : α) :
    set key v (set key w d) = set key v d := by
  induction d with
  | nil => simp [set]
  | cons entry d ih =>
    obtain ⟨k, u⟩ := entry
    by_cases hk : k = key
    · simp [set, hk]
    · simp [set, hk, ih]

private theorem extend_cons (d : Dict α) (entry : String × α) (other : Dict α) :
    extend d (entry :: other) = extend (set entry.1 entry.2 d) other :=
  rfl

theorem extend_concat (d other : Dict α) (entry : String × α) :
    extend d (other ++ [entry]) = set entry.1 entry.2 (extend d other) :=
  List.foldl_append

/-- Of two keys the one that is there already may be set before the other or after it. -/
private theorem set_comm {d : Dict α} {key k : String} (hkey : key ∈ keys d) (hne : key ≠ k)
    (v w : α) :
    set key v (set k w d) = set k w (set key v d) := by
  induction d with
  | nil => cases hkey
  | cons entry d ih =>
    obtain ⟨i, u⟩ := entry
    by_cases hi : i = key
    · have hik : i ≠ k := fun he => hne (hi.symm.trans he)
      simp [set, hi, hne]
    · have hrest : key ∈ keys d := (List.mem_cons.mp hkey).resolve_left (Ne.symm hi)
      by_cases hik : i = k
      · simp [set, hik, Ne.symm hne]
      · simp [set, hi, hik, ih hrest]

private theorem set_extend {d other : Dict α} {key : String} (hkey : key ∈ keys d)
    (hother : key ∉ keys other) (v : α) :
    set key v (extend d other) = extend (set key v d) other := by
  induction other generalizing d with
  | nil => rfl
  | cons entry other ih =>
    have hne : key ≠ entry.1 := fun he => hother (he ▸ List.mem_cons_self)
    have hrest : key ∉ keys other := fun hm => hother (List.mem_cons_of_mem _ hm)
    have hstays : key ∈ keys (set entry.1 entry.2 d) := by
      rw [keys_set]
      split
      · exact hkey
      · exact List.mem_append_left _ hkey
    rw [extend_cons, extend_cons, ih hstays hrest, set_comm hkey hne]

private theorem extend_set (d : Dict α) {other : Dict α} (h : (keys other).Nodup) (key : String)
    (v : α) :
    extend d (set key v other) = set key v (extend d other) := by
  induction other generalizing d with
  | nil => rfl
  | cons entry other ih =>
    obtain ⟨k, w⟩ := entry
    obtain ⟨hfirst, hrest⟩ := List.nodup_cons.mp h
    by_cases hk : k = key
    · have hset : key ∈ keys (set k w d) := by
        rw [mem_keys_iff, get?_set, if_pos hk]
        rfl
      rw [set, if_pos hk, extend_cons, extend_cons, set_extend hset (hk ▸ hfirst), hk, set_set]
    · rw [set, if_neg hk, extend_cons]
      exact ih (set k w d) hrest

theorem extend_extend (a : Dict α) {b : Dict α} (h : (keys b).Nodup) (c : Dict α) :
    extend (extend a b) c = extend a (extend b c) := by
  induction c using List.reverseRecOn with
  | nil => rfl
  | append_singleton c entry ih =>
    rw [extend_concat, extend_concat, ih, extend_set a (keys_extend_nodup h c)]

section Settings

/-- A dictionary with entries of a kind set over it, one after another. -/
def Over (P : String × α → Prop) (d d' : Dict α) : Prop :=
  ∃ made, d' = d.extend made ∧ ∀ entry ∈ made, P entry

variable {P Q : String × α → Prop} {a b c : Dict α}

theorem Over.made {made : List (String × α)} (h : ∀ entry ∈ made, P entry) (d : Dict α) :
    Over P d (d.extend made) :=
  ⟨made, rfl, h⟩

theorem Over.refl (d : Dict α) : Over P d d :=
  made (fun _ h => (List.not_mem_nil h).elim) d

theorem Over.trans (h : Over P a b) (h' : Over P b c) : Over P a c := by
  obtain ⟨made, rfl, hmade⟩ := h
  obtain ⟨more, rfl, hmore⟩ := h'
  refine ⟨made ++ more, ?_, List.forall_mem_append.mpr ⟨hmade, hmore⟩⟩
  rw [extend, extend, extend, List.foldl_append]

theorem Over.mono (h : Over P a b) (hPQ : ∀ entry, P entry → Q entry) : Over Q a b := by
  obtain ⟨made, rfl, hmade⟩ := h
  exact ⟨made, rfl, fun entry hentry => hPQ entry (hmade entry hentry)⟩

theorem Over.eq_of_none (h : Over P a b) (hP : ∀ entry, ¬ P entry) : b = a := by
  obtain ⟨made, rfl, hmade⟩ := h
  cases made with
  | nil => rfl
  | cons entry made => exact absurd (hmade entry List.mem_cons_self) (hP entry)

theorem Over.get? (h : Over P a b) {key : String} (hkey : ∀ v, ¬ P (key, v)) :
    b.get? key = a.get? key := by
  obtain ⟨made, rfl, hmade⟩ := h
  have hnone : made.reverse.lookup key = none := by
    rw [List.lookup_eq_none_iff]
    intro entry hentry
    have hP := hmade entry (List.mem_reverse.mp hentry)
    have hne : entry.1 ≠ key := fun he => hkey entry.2 (he ▸ hP)
    simpa using Ne.symm hne
  rw [get?_extend, hnone, Option.none_or]

end Settings

section Slots

/-- The entries of a key, of which there is one at most if the keys are distinct. -/
def slot (key : String) (d : Dict α) : Dict α :=
  d.filter fun entry => entry.1 = key

theorem get?_slot (d : Dict α) (key : String) : get? key (slot key d) = get? key d := by
  induction d with
  | nil => rfl
  | cons entry d ih =>
    obtain ⟨k, v⟩ := entry
    by_cases hk : k = key
    · simp [slot, get?, hk]
    · simpa [slot, get?, hk] using ih

private theorem slot_set (d : Dict α) (key k : String) (v : α) :
    slot key (set k v d) = if k = key then set k v (slot key d) else slot key d := by
  induction d with
  | nil => by_cases hk : k = key <;> simp [slot, set, hk]
  | cons entry d ih =>
    obtain ⟨i, w⟩ := entry
    unfold slot at ih ⊢
    by_cases hi : i = k <;> by_cases hk : k = key <;> grind [set]

theorem slot_extend (d other : Dict α) (key : String) :
    slot key (extend d other) = extend (slot key d) (slot key other) := by
  induction other generalizing d with
  | nil => rfl
  | cons entry other ih =>
    rw [extend_cons, ih, slot_set]
    by_cases hk : entry.1 = key
    · have hslot : slot key (entry :: other) = entry :: slot key other := by simp [slot, hk]
      rw [if_pos hk, hslot]
      rfl
    · have hslot : slot key (entry :: other) = slot key other := by simp [slot, hk]
      rw [if_neg hk, hslot]

/-- Of all that is set under a key the last counts. -/
theorem slot_extend_ofList (d other : Dict α) (key : String) :
    slot key (extend d other) =
      ((ofList other).get? key).elim (slot key d) fun v => set key v (slot key d) := by
  induction other using List.reverseRecOn with
  | nil => rfl
  | append_singleton other entry ih =>
    rw [ofList, extend_concat, extend_concat, slot_set, get?_set, ih]
    by_cases hk : entry.1 = key
    · rw [if_pos hk, if_pos hk, hk]
      cases get? key (ofList other) with
      | none => rfl
      | some v => exact set_set _ _ _ _
    · rw [if_neg hk, if_neg hk]
      rfl

end Slots

end Dict

end Stencil
