import Mathlib.Data.List.Forall2
import Stencil.Proofs.Value.Range
import Stencil.Proofs.Value.Splitting

/-!
# Pairing

Columns side by side have as many rows as the shortest of them has items, and numbering items is
setting them beside a range.
-/

namespace Stencil

namespace Number

private theorem ofInt_toInt_add (i : Int64) (n : Nat) :
    Int64.ofInt (i.toInt + n) = i + Int64.ofNat n := by
  rw [Int64.ofInt_add, Int64.ofInt_toInt]
  rfl

private theorem toInt_add_ofNat {i : Int64} {n : Nat} (h : i.toInt + n ≤ Int64.maxValue.toInt) :
    (i + Int64.ofNat n).toInt = i.toInt + n := by
  have hlow := i.le_toInt
  rw [Int64.toInt_maxValue] at h
  rw [← ofInt_toInt_add]
  exact Int64.toInt_ofInt_of_le (by omega) (by omega)

private theorem countOn_consecutive {start stop : Int64} {n : Nat}
    (h : stop.toInt = start.toInt + n) :
    (countOn stop 1 start #[]).size = n ∧
      ∀ t (ht : t < (countOn stop 1 start #[]).size),
        (countOn stop 1 start #[])[t] = start + Int64.ofNat t := by
  have hstart : start.toInt = start.toInt + (#[] : Array Int64).size * (1 : Int64).toInt := by simp
  obtain ⟨hcounted, hend⟩ :=
    countOn_counted (counted_empty start.toInt stop.toInt (1 : Int64).toInt) hstart
  have hone : (1 : Int64).toInt = 1 := rfl
  simp only [hone, Before, Int.mul_one] at hend
  refine ⟨?_, fun t ht => ?_⟩
  · by_contra hne
    rcases Nat.lt_or_gt_of_ne hne with hless | hmore
    · omega
    · have hlast := hcounted.before n hmore
      simp only [hone, Before, Int.mul_one] at hlast
      omega
  · have hplace := hcounted.place t ht
    rw [hone, Int.mul_one] at hplace
    rw [← ofInt_toInt_add, ← hplace, Int64.ofInt_toInt]

end Number

namespace Value

open Number

inductive Iterates : Value → List Value → Prop where
  | list (items : List Value) : Iterates (.list items) items
  | text (s : String) : Iterates (.text s) (s.toList.map ofChar)
  | map (entries : Dict Value) : Iterates (.map entries) (entries.keys.map .text)

/-- Rows of the items that columns have at one place each, as many as the shortest column has. -/
structure Aligned (columns rows : List (List Value)) : Prop where
  within : ∀ column ∈ columns, rows.length ≤ column.length
  shortest : ∃ column ∈ columns, column.length = rows.length
  items : ∀ (r : Nat) (row : List Value), rows[r]? = some row →
    List.Forall₂ (fun column item => column[r]? = some item) columns row

section Columns

variable {columns : List (List Value)} {as bs : List Value}

private theorem row_items {r : Nat} (h : ∀ column ∈ columns, r < column.length) :
    List.Forall₂ (fun column item => column[r]? = some item) columns
      (columns.filterMap (·[r]?)) := by
  induction columns with
  | nil => exact .nil
  | cons column columns ih =>
    obtain ⟨hfirst, hrest⟩ := List.forall_mem_cons.mp h
    have hitem : column[r]? = some column[r] := List.getElem?_eq_getElem hfirst
    rw [List.filterMap_cons, hitem]
    exact .cons hitem (ih hrest)

private theorem rows_aligned (h : columns ≠ []) : Aligned columns (rows columns) := by
  obtain ⟨n, hn, hrows⟩ : ∃ n, (columns.map List.length).min? = some n ∧
      rows columns = (List.range n).map fun row => columns.filterMap (·[row]?) := by
    cases columns with
    | nil => exact absurd rfl h
    | cons column columns => exact ⟨_, rfl, rfl⟩
  obtain ⟨hmem, hleast⟩ := List.min?_eq_some_iff.mp hn
  have hlength : (rows columns).length = n := by simp [hrows]
  refine ⟨fun column hcolumn => ?_, ?_, fun r row hrow => ?_⟩
  · rw [hlength]
    exact hleast _ (List.mem_map_of_mem hcolumn)
  · obtain ⟨column, hcolumn, hn⟩ := List.mem_map.mp hmem
    exact ⟨column, hcolumn, hn.trans hlength.symm⟩
  · obtain ⟨hr, rfl⟩ := List.getElem?_eq_some_iff.mp hrow
    rw [hlength] at hr
    simp only [hrows, List.getElem_map, List.getElem_range]
    exact row_items fun column hcolumn => hr.trans_le (hleast _ (List.mem_map_of_mem hcolumn))

private theorem rows_numbered {start : Int64} {numbers : List Int64} {items : List Value}
    (hlength : numbers.length = items.length)
    (hnumbers : ∀ t (ht : t < numbers.length), numbers[t] = start + Int64.ofNat t) :
    (rows [numbers.map int, items]).map list = numbered start items := by
  have hrows : (rows [numbers.map int, items]).length = items.length := by simp [rows, hlength]
  refine List.ext_getElem (by simp [numbered, hrows]) fun t ht _ => ?_
  have hitem : t < items.length := by simpa [hrows] using ht
  have hnumber := hnumbers t (hlength ▸ hitem)
  simp [rows, numbered, hitem, hlength, hnumber]

end Columns

section Calls

variable {v : Value} {items : List Value} {args : List Value} {columns : List (List Value)}

private theorem iterate_eq_ok : v.iterate = .ok items ↔ v.Iterates items := by
  have hkeys : ∀ entries : Dict Value,
      (entries.map fun entry => text entry.1) = (Dict.keys entries).map text := by simp [Dict.keys]
  constructor
  · intro h
    cases v with
    | list items =>
      cases h
      exact .list items
    | text s =>
      cases h
      exact .text s
    | map entries =>
      cases h
      rw [hkeys]
      exact .map entries
    | _ => cases h
  · intro h
    cases h with
    | list items => rfl
    | text s => rfl
    | map entries => rw [iterate, hkeys]

private theorem iterate_bind {α : Type} (h : v.Iterates items)
    (k : List Value → Except EvalError α) :
    v.iterate >>= k = k items := by
  rw [iterate_eq_ok.mpr h]
  rfl

private theorem mapM_iterate (h : List.Forall₂ Iterates args columns) :
    args.mapM iterate = .ok columns := by
  induction h with
  | nil => rfl
  | cons hv _ ih =>
    rw [List.mapM_cons, iterate_eq_ok.mpr hv, ih]
    rfl

private theorem call_zip (h : List.Forall₂ Iterates args columns) :
    Builtin.zip.call args = .ok (list ((rows columns).map list)) := by
  have hcall : Builtin.zip.call args =
      args.mapM iterate >>= fun columns => .ok (list ((rows columns).map list)) := rfl
  rw [hcall, mapM_iterate h]
  rfl

private theorem call_enumerate (h : v.Iterates items) (start : Int64) :
    Builtin.enumerate.call [v, int start] = .ok (list (numbered start items)) :=
  iterate_bind h fun items => .ok (list (numbered start items))

private theorem call_reversed (h : v.Iterates items) :
    Builtin.reversed.call [v] = .ok (list items.reverse) :=
  iterate_bind h fun items => .ok (list items.reverse)

private theorem call_list (h : v.Iterates items) : Builtin.list.call [v] = .ok (list items) :=
  iterate_bind h fun items => .ok (list items)

private theorem call_len (h : v.Iterates items) :
    Builtin.len.call [v] = .ok (ofNat items.length) := by
  cases h with
  | list items => rfl
  | text s => rw [List.length_map]; rfl
  | map entries => rw [List.length_map, Dict.keys, List.length_map]; rfl

private theorem call_range {start stop : Int64} {n : Nat} (h : stop.toInt = start.toInt + n) :
    ∃ numbers : List Int64,
      Builtin.range.call [int start, int stop] = .ok (list (numbers.map int)) ∧
      numbers.length = n ∧ ∀ t (ht : t < numbers.length), numbers[t] = start + Int64.ofNat t := by
  have hcall : Builtin.range.call [int start, int stop] = range start stop 1 := rfl
  obtain ⟨hsize, hplaces⟩ := countOn_consecutive h
  refine ⟨(countOn stop 1 start #[]).toList, ?_, ?_, fun t ht => ?_⟩
  · rw [hcall, range, if_neg (by decide)]
  · rw [Array.length_toList, hsize]
  · rw [Array.getElem_toList]
    exact hplaces t ht

private theorem add_length {start : Int64} {n : Nat} (h : start.toInt + n ≤ Int64.maxValue.toInt)
    (hn : n ≤ addressable) :
    binary .add (int start) (ofNat n) = .ok (int (start + Int64.ofNat n)) := by
  obtain ⟨i, hi, hexact⟩ := ofNat_exact hn
  have hadd : binary .add (int start) (int i) = fitted (fit? (start.toInt + i.toInt)) := rfl
  rw [hi, hadd, hexact, ← toInt_add_ofNat h, fit?_toInt]
  rfl

private theorem numbered_items (start : Int64) {t : Nat} {item : Value}
    (h : items[t]? = some item) :
    (numbered start items)[t]? = some (list [int (start + Int64.ofNat t), item]) := by
  rw [numbered, List.getElem?_mapIdx, h, Option.map_some]

/-- Numbering the items of a value is setting them beside a range as long as the value, whatever
number it begins with, if the range ends within the integers. Reversing twice gives the items of the
value, whose length is their number, as far as memory counts. Values side by side have as many rows
as the shortest of them, each of the items at its place. -/
theorem pairings_agree (hv : v.Iterates items) (hargs : List.Forall₂ Iterates args columns)
    (hne : args ≠ []) :
    (∀ start : Int64, start.toInt + items.length ≤ Int64.maxValue.toInt →
      ∃ (stop : Int64) (numbers : Value) (pairs : List Value),
        stop.toInt = start.toInt + items.length ∧
        (items.length ≤ addressable → ∃ n, Builtin.len.call [v] = .ok n ∧
          binary .add (int start) n = .ok (int stop)) ∧
        Builtin.range.call [int start, int stop] = .ok numbers ∧
        Builtin.zip.call [numbers, v] = .ok (list pairs) ∧
        Builtin.enumerate.call [v, int start] = .ok (list pairs) ∧
        pairs.length = items.length ∧
        ∀ (t : Nat) (item : Value), items[t]? = some item → ∃ i : Int64, i.toInt = start.toInt + t ∧
          pairs[t]? = some (list [int i, item])) ∧
    (∃ rows, Builtin.zip.call args = .ok (list (rows.map list)) ∧ Aligned columns rows) ∧
    (∃ back, Builtin.reversed.call [v] = .ok back ∧ back = list items.reverse ∧
      Builtin.reversed.call [back] = .ok (list items) ∧ Builtin.list.call [v] = .ok (list items)) ∧
    ∃ n : Int64, Builtin.len.call [v] = .ok (int n) ∧
      n.toInt = min (items.length : Int) addressable := by
  refine ⟨fun start hstart => ?_, ⟨rows columns, call_zip hargs, ?_⟩,
    ⟨_, call_reversed hv, rfl, ?_, call_list hv⟩, ?_⟩
  · have hstop := toInt_add_ofNat hstart
    obtain ⟨numbers, hrange, hlength, hnumbers⟩ := call_range hstop
    have hzip := call_zip (.cons (.list (numbers.map int)) (.cons hv .nil))
    rw [rows_numbered hlength hnumbers] at hzip
    refine ⟨_, _, _, hstop, fun hitems => ⟨_, call_len hv, add_length hstart hitems⟩, hrange,
      hzip, call_enumerate hv start, by simp [numbered], fun t item hitem =>
        ⟨_, toInt_add_ofNat ?_, numbered_items start hitem⟩⟩
    obtain ⟨ht, -⟩ := List.getElem?_eq_some_iff.mp hitem
    omega
  · apply rows_aligned
    rintro rfl
    cases hargs
    exact hne rfl
  · rw [call_reversed (.list items.reverse), List.reverse_reverse]
  · obtain ⟨n, hn, hleast⟩ := ofNat_min items.length
    exact ⟨n, by rw [call_len hv, hn], hleast⟩

end Calls

/-- Numbers up to the last but one, and rows of three columns of which the shortest has one item. -/
theorem pairings_agree_limit :
    let v : Value := .text "ñb"
    let args : List Value := [.list [.int 1, .int 2, .int 3], v, .map [("k", .none)]]
    (v.Iterates [.text "ñ", .text "b"] ∧ List.Forall₂ Iterates args
        [[.int 1, .int 2, .int 3], [.text "ñ", .text "b"], [.text "k"]] ∧ args ≠ []) ∧
      (∃ stop numbers,
        Builtin.range.call [.int (Int64.maxValue - 2), .int stop] = .ok numbers ∧
        Builtin.zip.call [numbers, v] = .ok (.list [.list [.int (Int64.maxValue - 2), .text "ñ"],
          .list [.int (Int64.maxValue - 1), .text "b"]])) ∧
      Builtin.zip.call args = .ok (.list [.list [.int 1, .text "ñ", .text "k"]]) ∧
      Builtin.len.call [v] = .ok (.int 2) := by
  intro v args
  have hv : v.Iterates [.text "ñ", .text "b"] := .text "ñb"
  have hargs : List.Forall₂ Iterates args
      [[.int 1, .int 2, .int 3], [.text "ñ", .text "b"], [.text "k"]] :=
    .cons (.list _) (.cons hv (.cons (.map [("k", .none)]) .nil))
  have hne : args ≠ [] := List.cons_ne_nil _ _
  obtain ⟨hpairs, ⟨rows, hzip, haligned⟩, -, n, hlen, hn⟩ := pairings_agree hv hargs hne
  obtain ⟨stop, numbers, pairs, -, -, hrange, hbeside, -, hlength, hitems⟩ :=
    hpairs (Int64.maxValue - 2) (by decide)
  refine ⟨⟨hv, hargs, hne⟩, ⟨stop, numbers, hrange, ?_⟩, ?_, ?_⟩
  · match pairs with
    | [first, second] =>
      obtain ⟨i, hi, hfirst⟩ := hitems 0 _ rfl
      obtain ⟨j, hj, hsecond⟩ := hitems 1 _ rfl
      have hi' : i = Int64.maxValue - 2 := Int64.toInt_inj.mp (hi.trans (by decide))
      have hj' : j = Int64.maxValue - 1 := Int64.toInt_inj.mp (hj.trans (by decide))
      rw [hbeside, ← hi', ← hj', Option.some.inj hfirst, Option.some.inj hsecond]
  · have hone : rows.length = 1 := by
      have hless := haligned.within [.text "k"] (by simp)
      obtain ⟨column, hcolumn, hlength⟩ := haligned.shortest
      simp only [List.mem_cons, List.not_mem_nil, or_false] at hcolumn
      rcases hcolumn with rfl | rfl | rfl <;> simp at hlength hless <;> omega
    match rows with
    | [row] =>
      have hrow : row = [.int 1, .text "ñ", .text "k"] := by
        have hitems := haligned.items 0 row rfl
        simpa [List.forall₂_cons_left_iff] using hitems
      rw [hzip, hrow]
      rfl
  · have htwo : n = 2 := Int64.toInt_inj.mp (hn.trans (by decide))
    rw [hlen, htwo]

end Value

end Stencil
