import Stencil.Disk.Tree

/-! # Walking through a directory tree -/

namespace Stencil

def Node.at? : List String → Node → Option Node
  | [], n => some n
  | name :: names, .dir entries => (entries.lookup name).bind (at? names)
  | _ :: _, .file _ => none

theorem Node.at?_append (xs ys : List String) (n : Node) :
    n.at? (xs ++ ys) = (n.at? xs).bind fun m => m.at? ys := by
  induction xs generalizing n with
  | nil => rfl
  | cons x xs ih =>
    cases n with
    | file content => rfl
    | dir entries =>
      simp only [List.cons_append, Node.at?]
      cases entries.lookup x with
      | none => rfl
      | some m => exact ih m

namespace Path

theorem rawParts_intercalate {names : List String} (hne : names ≠ [])
    (hslash : ∀ name ∈ names, '/' ∉ name.toList) :
    (⟨"/".intercalate names⟩ : Path).rawParts = names := by
  have htext : "/".toList = ['/'] := rfl
  have hfree : ∀ cs ∈ names.map String.toList, '/' ∉ cs := by
    intro cs hcs
    obtain ⟨name, hname, rfl⟩ := List.mem_map.mp hcs
    exact hslash name hname
  have hsplit := List.splitOn_intercalate '/' hfree (by simpa using hne)
  simp [rawParts, htext, hsplit]

theorem isAbsolute_iff (p : Path) : p.isAbsolute = true ↔ ∃ cs, p.text.toList = '/' :: cs := by
  have hslash : "/".toList = ['/'] := rfl
  rw [isAbsolute, String.startsWith_string_iff, hslash]
  cases p.text.toList with
  | nil => simp
  | cons c cs => simp [eq_comm]

private theorem endsSlash_iff (p : Path) :
    p.text.endsWith "/" = true ↔ ∃ cs, p.text.toList = cs ++ ['/'] := by
  have hslash : "/".toList = ['/'] := rfl
  rw [String.endsWith_eq_endsWith_toSlice, String.Slice.endsWith_string_iff, hslash]
  simp [List.suffix_iff_exists_append_eq, eq_comm]

/-- A path inside another has the parts of both; a slash at the end of the other adds none. -/
theorem rawParts_join {base p : Path} (hbase : base.text ≠ "") (hp : p.isAbsolute = false) :
    ∃ before, before ≠ [] ∧ (base.rawParts = before ∨ base.rawParts = before ++ [""]) ∧
      (base.join p).rawParts = before ++ p.rawParts := by
  have hslash : "/".toList = ['/'] := rfl
  have hne : ∀ cs : List Char, (cs.splitOn '/').map String.ofList ≠ [] := by
    intro cs he
    exact List.splitOn_ne_nil '/' cs (List.map_eq_nil_iff.mp he)
  unfold join
  by_cases hend : base.text.endsWith "/" = true
  · obtain ⟨cs, hcs⟩ := (endsSlash_iff base).mp hend
    refine ⟨(cs.splitOn '/').map String.ofList, hne cs, .inr ?_, ?_⟩
    · simp [rawParts, hcs, List.splitOn_append_cons_self]
    · simp [rawParts, hp, hbase, hend, hcs, List.splitOn_append_cons_self]
  · refine ⟨base.rawParts, hne _, .inl rfl, ?_⟩
    simp [rawParts, hp, hbase, hend, hslash, List.splitOn_append_cons_self]

theorem isAbsolute_join {base p : Path} (hbase : base.text ≠ "") (hp : p.isAbsolute = false) :
    (base.join p).isAbsolute = base.isAbsolute := by
  have htext : ∃ rest, (base.join p).text.toList = base.text.toList ++ rest := by
    unfold join
    by_cases hend : base.text.endsWith "/" = true
    · exact ⟨p.text.toList, by simp [hp, hbase, hend]⟩
    · exact ⟨'/' :: p.text.toList, by simp [hp, hbase, hend]⟩
  obtain ⟨rest, hrest⟩ := htext
  rw [Bool.eq_iff_iff, isAbsolute_iff, isAbsolute_iff, hrest]
  cases hcs : base.text.toList with
  | nil => simp [hbase] at hcs
  | cons c cs => simp

theorem text_join_ne {base p : Path} (hbase : base.text ≠ "") : (base.join p).text ≠ "" := by
  unfold join
  by_cases hp : p.isAbsolute = true
  · obtain ⟨cs, hcs⟩ := (isAbsolute_iff p).mp hp
    have htext : p.text ≠ "" := by
      intro he
      simp [he] at hcs
    simp [hp, htext]
  · by_cases hend : base.text.endsWith "/" = true <;> simp [hp, hbase, hend]

end Path

namespace Disk

@[simp] theorem names_nil : names [] = [] := rfl

@[simp] theorem names_cons (name : String) (n : Node) (p : Place) :
    names ((name, n) :: p) = names p ++ [name] := by
  simp [names]

theorem names_tail (p : Place) : names p.tail = (names p).dropLast := by
  cases p with
  | nil => rfl
  | cons entry p => simp [names]

/-- Every node on the way to a place is an entry of the one before it. -/
def Stands (d : Disk) : Place → Prop
  | [] => True
  | (name, n) :: p => Stands d p ∧ ∃ entries, d.node p = .dir entries ∧ entries.lookup name = some n

namespace Stands

variable {d : Disk} {p q : Place}

theorem at_names (h : d.Stands p) : d.root.at? (names p) = some (d.node p) := by
  induction p with
  | nil => rfl
  | cons entry p ih =>
    obtain ⟨name, n⟩ := entry
    obtain ⟨hp, entries, hdir, hlookup⟩ := h
    rw [names_cons, Node.at?_append, ih hp, hdir]
    simp [Node.at?, hlookup, node]

private theorem tail (h : d.Stands p) : d.Stands p.tail := by
  cases p with
  | nil => exact h
  | cons entry p => exact h.1

end Stands

theorem enter_eq_ok {d : Disk} {p q : Place} {part : String} (h : d.enter p part = .ok q) :
    q = p ∨ q = p.tail ∨ ∃ n entries, q = (part, n) :: p ∧ d.node p = .dir entries ∧
      entries.lookup part = some n := by
  unfold enter at h
  cases hn : d.node p with
  | file content => simp [hn] at h
  | dir entries =>
    simp only [hn] at h
    by_cases hpart : Path.isPart part = true
    · rw [hpart] at h
      by_cases hback : part = ".."
      · simp only [hback, Bool.not_true, Bool.false_eq_true, if_false, if_true] at h
        cases h
        exact .inr (.inl rfl)
      · cases hl : entries.lookup part with
        | none => simp [hback, hl] at h
        | some n =>
          simp only [hback, hl, Bool.not_true, Bool.false_eq_true, if_false] at h
          cases h
          exact .inr (.inr ⟨n, entries, rfl, rfl, hl⟩)
    · simp [hpart] at h
      exact .inl h.symm

theorem Stands.enter {d : Disk} {p q : Place} {part : String} (hp : d.Stands p)
    (h : d.enter p part = .ok q) : d.Stands q := by
  rcases enter_eq_ok h with rfl | rfl | ⟨n, entries, rfl, hdir, hlookup⟩
  · exact hp
  · exact hp.tail
  · exact ⟨hp, entries, hdir, hlookup⟩

theorem walk_cons_eq_ok {d : Disk} {p r : Place} {part : String} {parts : List String} :
    (part :: parts).foldlM d.enter p = .ok r ↔
      ∃ q, d.enter p part = .ok q ∧ parts.foldlM d.enter q = .ok r := by
  rw [List.foldlM_cons]
  cases d.enter p part with
  | error fault => simp [bind, Except.bind]
  | ok q => simp [bind, Except.bind]

theorem Stands.walk {d : Disk} {p q : Place} {parts : List String} (hp : d.Stands p)
    (h : parts.foldlM d.enter p = .ok q) : d.Stands q := by
  induction parts generalizing p with
  | nil =>
    cases h
    exact hp
  | cons part parts ih =>
    obtain ⟨r, he, hrest⟩ := walk_cons_eq_ok.mp h
    exact ih (hp.enter he) hrest

def origin (d : Disk) (path : Path) : Except ReadFault Place :=
  if path.isAbsolute then .ok [] else d.current.foldlM d.enter []

def onward (path : Path) : List String :=
  if path.isAbsolute then path.rawParts.tail else path.rawParts

theorem find_eq (d : Disk) {path : Path} (h : path.text ≠ "") :
    d.find path = (d.origin path).bind ((onward path).foldlM d.enter) := by
  have hempty : path.text.isEmpty = false := by simpa using h
  unfold find origin onward
  rw [hempty]
  cases path.isAbsolute <;> rfl

theorem text_ne_of_find {d : Disk} {path : Path} {p : Place} (h : d.find path = .ok p) :
    path.text ≠ "" := by
  intro he
  simp [find, he] at h

theorem find_absolute {d : Disk} {path : Path} (h : path.isAbsolute = true) :
    d.find path = path.rawParts.tail.foldlM d.enter [] := by
  have htext : path.text ≠ "" := by
    obtain ⟨cs, hcs⟩ := (Path.isAbsolute_iff path).mp h
    intro he
    simp [he] at hcs
  rw [find_eq d htext, origin, onward, h]
  rfl

theorem stands_origin {d : Disk} {path : Path} {p : Place} (h : d.origin path = .ok p) :
    d.Stands p := by
  have hstart : d.Stands [] := trivial
  unfold origin at h
  by_cases habs : path.isAbsolute = true
  · rw [if_pos habs] at h
    cases h
    exact hstart
  · rw [if_neg habs] at h
    exact hstart.walk h

theorem stands_of_find {d : Disk} {path : Path} {p : Place} (h : d.find path = .ok p) :
    d.Stands p := by
  rw [find_eq d (text_ne_of_find h)] at h
  cases ho : d.origin path with
  | error fault => simp [ho, Except.bind] at h
  | ok q =>
    rw [ho] at h
    exact (stands_origin ho).walk h

private theorem enter_empty {d : Disk} {p q : Place} (h : d.enter p "" = .ok q) : q = p := by
  unfold enter at h
  cases hn : d.node p <;> simp_all [Path.isPart]

private theorem walk_append (d : Disk) (p : Place) (xs ys : List String) :
    (xs ++ ys).foldlM d.enter p = (xs.foldlM d.enter p).bind (ys.foldlM d.enter) :=
  List.foldlM_append

theorem walk_append_eq_ok {d : Disk} {p r : Place} {xs ys : List String} :
    (xs ++ ys).foldlM d.enter p = .ok r ↔
      ∃ q, xs.foldlM d.enter p = .ok q ∧ ys.foldlM d.enter q = .ok r := by
  rw [walk_append]
  cases xs.foldlM d.enter p with
  | error fault => simp [Except.bind]
  | ok q => simp [Except.bind]

/-- A path inside a directory is found from the place of the directory on. -/
theorem find_join {d : Disk} {base p : Path} {q : Place} (h : d.find base = .ok q)
    (hp : p.isAbsolute = false) : d.find (base.join p) = p.rawParts.foldlM d.enter q := by
  have hbase := text_ne_of_find h
  have habs := Path.isAbsolute_join hbase hp
  have horigin : d.origin (base.join p) = d.origin base := by
    unfold origin
    rw [habs]
  rw [find_eq d hbase] at h
  rw [find_eq d (Path.text_join_ne hbase), horigin]
  cases ho : d.origin base with
  | error fault => simp [ho, Except.bind] at h
  | ok r =>
    have hwalk : (onward base).foldlM d.enter r = .ok q := by simpa [ho, Except.bind] using h
    change (onward (base.join p)).foldlM d.enter r = _
    obtain ⟨before, hne, hparts, hall⟩ := Path.rawParts_join hbase hp
    let start := if base.isAbsolute then before.tail else before
    have honward : onward (base.join p) = start ++ p.rawParts := by
      unfold onward
      rw [habs, hall]
      cases before with
      | nil => exact absurd rfl hne
      | cons first rest => cases hb : base.isAbsolute <;> simp [start, hb]
    have hstart : start.foldlM d.enter r = .ok q := by
      rcases hparts with hparts | hparts
      · have hsame : onward base = start := by simp [onward, start, hparts]
        rwa [hsame] at hwalk
      · have hmore : onward base = start ++ [""] := by
          cases before with
          | nil => exact absurd rfl hne
          | cons first rest => cases hb : base.isAbsolute <;> simp [onward, start, hparts, hb]
        rw [hmore] at hwalk
        obtain ⟨t, hs, hlast⟩ := walk_append_eq_ok.mp hwalk
        obtain ⟨u, hlast, hnil⟩ := walk_cons_eq_ok.mp hlast
        cases hnil
        rw [hs, enter_empty hlast]
    rw [honward, walk_append, hstart]
    rfl

end Disk

end Stencil
