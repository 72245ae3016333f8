/-!
# Dictionaries

Values under string keys, in the order in which the keys were first set. `set` gives every key at
most one entry.
-/

namespace Stencil

/-- Entries in the order of their keys' first setting. -/
abbrev Dict (α : Type) := List (String × α)

namespace Dict

variable {α : Type}

def get? (key : String) : Dict α → Option α
  | [] => none
  | (k, v) :: rest => if k = key then some v else get? key rest

def has (key : String) (d : Dict α) : Bool :=
  (d.get? key).isSome

/-- Puts a value under a key: in the place of the key's entry, else at the end. -/
def set (key : String) (value : α) : Dict α → Dict α
  | [] => [(key, value)]
  | (k, v) :: rest => if k = key then (k, value) :: rest else (k, v) :: set key value rest

def remove (key : String) (d : Dict α) : Dict α :=
  d.filter fun entry => entry.1 != key

/-- Sets every entry of another dictionary, in its order. -/
def extend (d other : Dict α) : Dict α :=
  other.foldl (fun d entry => d.set entry.1 entry.2) d

def ofList (entries : List (String × α)) : Dict α :=
  extend [] entries

def keys (d : Dict α) : List String :=
  d.map (·.1)

def values (d : Dict α) : List α :=
  d.map (·.2)

def sorted (d : Dict α) : Dict α :=
  d.mergeSort fun a b => decide (a.1 ≤ b.1)

theorem get?_set (d : Dict α) (key k : String) (value : α) :
    get? k (set key value d) = if key = k then some value else get? k d := by
  induction d with
  | nil => simp [set, get?]
  | cons entry rest ih => grind [set, get?]

theorem set_of_not_mem {d : Dict α} {key : String} (h : key ∉ keys d) (v : α) :
    set key v d = d ++ [(key, v)] := by
  induction d with
  | nil => rfl
  | cons entry d ih =>
    obtain ⟨k, w⟩ := entry
    have hk : k ≠ key := fun he => h (by simp [keys, he])
    have hd : key ∉ keys d := fun hm => h (List.mem_cons_of_mem _ hm)
    rw [set, if_neg hk, ih hd, List.cons_append]

theorem keys_set (d : Dict α) (key : String) (value : α) :
    keys (set key value d) = if key ∈ keys d then keys d else keys d ++ [key] := by
  induction d with
  | nil => simp [set, keys]
  | cons entry rest ih => grind [set, keys]

theorem keys_set_nodup {d : Dict α} (h : (keys d).Nodup) (key : String) (value : α) :
    (keys (set key value d)).Nodup := by
  grind [keys_set, List.nodup_append]

theorem get?_remove (d : Dict α) (key k : String) :
    get? k (remove key d) = if key = k then none else get? k d := by
  induction d with
  | nil => simp [remove, get?]
  | cons entry rest ih =>
    have h : remove key (entry :: rest) =
        if entry.1 = key then remove key rest else entry :: remove key rest := by
      by_cases he : entry.1 = key <;> simp [remove, he]
    grind [get?]

theorem get?_extend (d other : Dict α) (k : String) :
    get? k (extend d other) = (other.reverse.lookup k).or (get? k d) := by
  induction other generalizing d with
  | nil => simp [extend]
  | cons entry rest ih =>
    have h := ih (d.set entry.1 entry.2)
    simp only [extend, List.foldl_cons] at h ⊢
    rw [h, get?_set]
    grind [List.reverse_cons]

end Dict

end Stencil
