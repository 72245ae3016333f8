import Stencil.Value.Operator
import Stencil.Value.Subscript

/-!
# Slices and subscripts of sequences

Slices take their items from where subscripts find them, and the two slices at one place make the
sequence again.
-/

namespace Stencil

namespace Value

def sequence? : Value → Option (List Value)
  | list items => some items
  | text s => some (s.toList.map ofChar)
  | _ => Option.none

/-- Where an integer cuts a sequence of a length: counted from the end if it is negative, and at one
of the ends if it is beyond them. -/
def cut (length : Nat) (i : Int64) : Int :=
  if i.toInt < 0 then max 0 (length + i.toInt) else min i.toInt length

/-- Where a bound cuts a sequence of a length. One that is left out or empty has a default. -/
inductive Cuts (length default : Nat) : Option Value → Int → Prop where
  | omitted : Cuts length default Option.none default
  | empty : Cuts length default (some none) default
  | index (i : Int64) : Cuts length default (some (int i)) (cut length i)

section Bounds

variable {length default : Nat} {b : Option Value} {place : Int}

private theorem cut_bounds (length : Nat) (i : Int64) :
    0 ≤ cut length i ∧ cut length i ≤ length := by
  unfold cut
  split <;> omega

private theorem Cuts.bounds (h : Cuts length default b place) (hd : default ≤ length) :
    0 ≤ place ∧ place ≤ length := by
  cases h with
  | index i => exact cut_bounds length i
  | _ => omega

private theorem Cuts.bound (h : Cuts length default b place) :
    Value.bound length default b = .ok place.toNat := by
  cases h with
  | omitted => rfl
  | empty => rfl
  | index i =>
    rw [Value.bound, cut]
    split
    · congr 1
      omega
    · congr 1
      omega

private theorem bound_le {n : Nat} (h : Value.bound length default b = .ok n)
    (hd : default ≤ length) :
    n ≤ length := by
  unfold Value.bound at h
  split at h
  · cases h
    exact hd
  · cases h
    exact hd
  · cases h
    split <;> omega
  · cases h

private theorem sliceBounds_le {lower upper : Option Value} {start stop : Nat}
    (h : sliceBounds length lower upper = .ok (start, stop)) : start ≤ stop ∧ stop ≤ length := by
  unfold sliceBounds at h
  cases hlower : Value.bound length 0 lower with
  | error e =>
    rw [hlower] at h
    cases h
  | ok n =>
    cases hupper : Value.bound length length upper with
    | error e =>
      rw [hlower, hupper] at h
      cases h
    | ok m =>
      rw [hlower, hupper] at h
      cases h
      have hn := bound_le hlower (Nat.zero_le length)
      have hm := bound_le hupper (Nat.le_refl length)
      omega

private theorem Cuts.sliceBounds {lower upper : Option Value} {a b : Int}
    (ha : Cuts length 0 lower a) (hb : Cuts length length upper b) :
    sliceBounds length lower upper = .ok (a.toNat, max b.toNat a.toNat) := by
  rw [Value.sliceBounds, ha.bound, hb.bound]
  rfl

end Bounds

section Places

variable {α : Type} {items : List α} {i : Int64}

private theorem at?_getElem {n : Nat} (hn : n < items.length)
    (hi : i.toInt = n ∨ i.toInt = n - (items.length : Int)) : at? items i = some items[n] := by
  have hplace : (if i.toInt < 0 then i.toInt + items.length else i.toInt) = n := by
    split <;> omega
  rw [at?, hplace, if_neg (Int.not_lt.mpr (Int.natCast_nonneg n)), Int.toNat_natCast,
    List.getElem?_eq_getElem hn]

private theorem at?_outside (hi : i.toInt < -(items.length : Int) ∨ items.length ≤ i.toInt) :
    at? items i = Option.none := by
  unfold at?
  dsimp only
  split
  · exact if_pos (by omega)
  · exact List.getElem?_eq_none (by omega)

private theorem at?_map {β : Type} (f : α → β) (items : List α) (i : Int64) :
    at? (items.map f) i = (at? items i).map f := by
  unfold at?
  dsimp only
  rw [List.length_map, List.getElem?_map]
  split
  · split <;> rfl
  · rfl

end Places

section Sequences

variable {s : Value} {items : List Value} {lower upper : Option Value} {a b : Int}

private theorem sliceItems_eq {α : Type} {as : List α} (ha : Cuts as.length 0 lower a)
    (hb : Cuts as.length as.length upper b) :
    sliceItems as lower upper = .ok ((as.take b.toNat).drop a.toNat) := by
  have hsame : (as.take (max b.toNat a.toNat)).drop a.toNat = (as.take b.toNat).drop a.toNat := by
    rw [List.drop_take, List.drop_take]
    congr 1
    omega
  rw [sliceItems, ha.sliceBounds hb, ← hsame]
  rfl

private theorem slice_list (ha : Cuts items.length 0 lower a)
    (hb : Cuts items.length items.length upper b) :
    (list items).slice lower upper = .ok (.list ((items.take b.toNat).drop a.toNat)) := by
  rw [slice, sliceItems_eq ha hb]
  rfl

theorem slice_text {t : String} (ha : Cuts t.toList.length 0 lower a)
    (hb : Cuts t.toList.length t.toList.length upper b) :
    (text t).slice lower upper =
      .ok (.text (String.ofList ((t.toList.take b.toNat).drop a.toNat))) := by
  rw [slice, sliceItems_eq ha hb]
  rfl

private theorem slice_sequence (h : s.sequence? = some items) (ha : Cuts items.length 0 lower a)
    (hb : Cuts items.length items.length upper b) : ∃ part, s.slice lower upper = .ok part ∧
      part.sequence? = some ((items.take b.toNat).drop a.toNat) := by
  cases s with
  | list _ =>
    cases h
    exact ⟨_, slice_list ha hb, rfl⟩
  | text t =>
    cases h
    rw [List.length_map] at ha hb
    refine ⟨_, slice_text ha hb, ?_⟩
    simp [sequence?, List.map_take, List.map_drop]
  | _ => cases h

private theorem take_drop_cut {α : Type} (as : List α) (i : Int64) :
    (as.take (cut as.length i).toNat).drop ((0 : Nat) : Int).toNat ++
      (as.take (as.length : Int).toNat).drop (cut as.length i).toNat = as := by
  rw [Int.toNat_natCast, List.drop_zero, Int.toNat_natCast, List.take_length,
    List.take_append_drop]

private theorem slices_join (h : s.sequence? = some items) (i : Int64) :
    ∃ front back, s.slice Option.none (some (.int i)) = .ok front ∧
      s.slice (some (.int i)) Option.none = .ok back ∧ binary .add front back = .ok s := by
  cases s with
  | list _ =>
    cases h
    refine ⟨_, _, slice_list .omitted (.index i), slice_list (.index i) .omitted, ?_⟩
    rw [binary, take_drop_cut]
  | text t =>
    refine ⟨_, _, slice_text .omitted (.index i), slice_text (.index i) .omitted, ?_⟩
    rw [binary, ← String.ofList_append, take_drop_cut, String.ofList_toList]
  | _ => cases h

def outside (s : Value) : EvalError :=
  .index ((if s.typeName = "str" then "string" else "list") ++ " index out of range")

private theorem index_sequence (h : s.sequence? = some items) (i : Int64) :
    s.index (.int i) = ((at? items i).elim (.error s.outside) .ok) := by
  cases s with
  | list _ =>
    cases h
    rw [index]
    cases at? items i <;> rfl
  | text t =>
    cases h
    rw [index, at?_map]
    cases at? t.toList i <;> rfl
  | _ => cases h

theorem index_getElem (h : s.sequence? = some items) {i : Int64} {n : Nat} (hn : n < items.length)
    (hi : i.toInt = n ∨ i.toInt = n - (items.length : Int)) : s.index (.int i) = .ok items[n] := by
  rw [index_sequence h, at?_getElem hn hi, Option.elim_some]

private theorem index_outside (h : s.sequence? = some items) {i : Int64}
    (hi : i.toInt < -(items.length : Int) ∨ items.length ≤ i.toInt) :
    s.index (.int i) = .error s.outside := by
  rw [index_sequence h, at?_outside hi, Option.elim_none]

private theorem index_succeeds_iff (h : s.sequence? = some items) (i : Int64) :
    (∃ v, s.index (.int i) = .ok v) ↔ -(items.length : Int) ≤ i.toInt ∧ i.toInt < items.length := by
  constructor
  · rintro ⟨v, hv⟩
    by_cases hout : i.toInt < -(items.length : Int) ∨ items.length ≤ i.toInt
    · rw [index_outside h hout] at hv
      cases hv
    · omega
  · rintro ⟨hlow, hhigh⟩
    by_cases hneg : i.toInt < 0
    · have hn : (items.length + i.toInt).toNat < items.length := by omega
      exact ⟨_, index_getElem h hn (.inr (by omega))⟩
    · have hn : i.toInt.toNat < items.length := by omega
      exact ⟨_, index_getElem h hn (.inl (by omega))⟩

/-- In a list, or in the characters of a text, the slices up to a place and from it on make the
whole, a slice has the items from the place of its lower bound up to that of its upper one, and a
subscript finds an item just if it counts from one of the ends to an item. Whatever the bounds are,
a slice ends within the sequence and not before it begins. -/
theorem slices_and_subscripts (h : s.sequence? = some items) :
    (∀ i : Int64, ∃ front back, s.slice Option.none (some (.int i)) = .ok front ∧
      s.slice (some (.int i)) Option.none = .ok back ∧ binary .add front back = .ok s) ∧
    (∀ lower upper a b, Cuts items.length 0 lower a → Cuts items.length items.length upper b →
      (0 ≤ a ∧ a ≤ items.length ∧ 0 ≤ b ∧ b ≤ items.length) ∧
      sliceBounds items.length lower upper = .ok (a.toNat, max b.toNat a.toNat) ∧
      ∃ part partItems, s.slice lower upper = .ok part ∧ part.sequence? = some partItems ∧
        (partItems.length : Int) = max 0 (b - a) ∧
        ∀ k (hk : k < partItems.length), ∃ hj : a.toNat + k < items.length,
          partItems[k] = items[a.toNat + k] ∧
          ∀ i j : Int64, i.toInt = k → j.toInt = a + k →
            part.index (.int i) = .ok items[a.toNat + k] ∧
            s.index (.int j) = .ok items[a.toNat + k]) ∧
    (∀ lower upper start stop, sliceBounds items.length lower upper = .ok (start, stop) →
      start ≤ stop ∧ stop ≤ items.length) ∧
    ∀ i : Int64,
      ((∃ v, s.index (.int i) = .ok v) ↔ -(items.length : Int) ≤ i.toInt ∧ i.toInt < items.length) ∧
      (∀ n (hn : n < items.length), i.toInt = n ∨ i.toInt = n - (items.length : Int) →
        s.index (.int i) = .ok items[n]) ∧
      (i.toInt < -(items.length : Int) ∨ items.length ≤ i.toInt →
        s.index (.int i) = .error s.outside) := by
  refine ⟨slices_join h, fun lower upper a b ha hb => ?_, fun _ _ _ _ => sliceBounds_le,
    fun i => ?_⟩
  · obtain ⟨hlowA, hhighA⟩ := ha.bounds (Nat.zero_le _)
    obtain ⟨hlowB, hhighB⟩ := hb.bounds (Nat.le_refl _)
    obtain ⟨part, hpart, hitems⟩ := slice_sequence h ha hb
    refine ⟨⟨hlowA, hhighA, hlowB, hhighB⟩, ha.sliceBounds hb, part, _, hpart, hitems, ?_,
      fun k hk => ?_⟩
    · rw [List.length_drop, List.length_take]
      omega
    · have hlength := hk
      rw [List.length_drop, List.length_take] at hlength
      have hj : a.toNat + k < items.length := by omega
      have hitem : ((items.take b.toNat).drop a.toNat)[k] = items[a.toNat + k] := by
        rw [List.getElem_drop, List.getElem_take]
      refine ⟨hj, hitem, fun i j hi hj' => ⟨?_, index_getElem h hj (.inl (by omega))⟩⟩
      rw [index_getElem hitems hk (.inl hi), hitem]
  · exact ⟨index_succeeds_iff h i, fun n hn hi => index_getElem h hn hi, index_outside h⟩

/-- A text is counted in characters, and the least integer is before all of them. -/
theorem slices_and_subscripts_text :
    let s : Value := .text "añb"
    let items : List Value := [.text "a", .text "ñ", .text "b"]
    s.sequence? = some items ∧ s.slice (some (.int (-2))) Option.none = .ok (.text "ñb") ∧
      s.index (.int (-2)) = .ok (.text "ñ") ∧
      s.index (.int Int64.minValue) = .error (.index "string index out of range") := by
  intro s items
  have hitems : s.sequence? = some items := by rfl
  have hslice : s.slice (some (.int (-2))) Option.none = .ok (.text "ñb") := by rfl
  obtain ⟨-, -, -, hindex⟩ := slices_and_subscripts hitems
  have hfound := (hindex (-2)).2.1 1 (by decide) (.inr (by decide))
  have hmissing := (hindex Int64.minValue).2.2 (.inl (by decide))
  exact ⟨hitems, hslice, hfound, hmissing⟩

end Sequences

end Value

end Stencil
