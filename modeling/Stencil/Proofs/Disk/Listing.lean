import Stencil.Disk.Glob
import Stencil.Proofs.Disk.Confinement

/-!
# Everything below a directory

The paths to what is below a directory are those that its entries' names lead to one after another,
and every file is among them once.
-/

namespace Stencil

instance : DecidablePred Path.IsName := fun part =>
  inferInstanceAs (Decidable (Path.isPart part = true ∧ part ≠ ".." ∧ '/' ∉ part.toList))

/-- A tree whose directories have each of their entries under a name of its own. -/
inductive Node.Proper : Node → Prop where
  | file (content : ByteArray) : Proper (.file content)
  | dir {entries : List (String × Node)} : (entries.map (·.1)).Nodup →
      (∀ entry ∈ entries, Path.IsName entry.1) → (∀ entry ∈ entries, Proper entry.2) →
      Proper (.dir entries)

private theorem lookup_eq_some_iff {entries : List (String × Node)} (h : (entries.map (·.1)).Nodup)
    {name : String} {n : Node} : entries.lookup name = some n ↔ (name, n) ∈ entries := by
  induction entries with
  | nil => simp
  | cons entry entries ih =>
    obtain ⟨k, m⟩ := entry
    obtain ⟨hk, hrest⟩ := List.nodup_cons.mp h
    rw [List.lookup_cons]
    by_cases hname : name = k
    · subst hname
      have hout : (name, n) ∉ entries := fun hmem => hk (List.mem_map_of_mem (f := (·.1)) hmem)
      simp [hout, eq_comm]
    · have hne : (name == k) = false := beq_eq_false_iff_ne.mpr hname
      rw [hne, ih hrest]
      simp [hname]

theorem Node.Proper.at? {n m : Node} (h : n.Proper) {names : List String}
    (hm : n.at? names = some m) : m.Proper ∧ ∀ name ∈ names, Path.IsName name := by
  induction names generalizing n with
  | nil =>
    cases hm
    exact ⟨h, by simp⟩
  | cons name names ih =>
    cases h with
    | file content => cases hm
    | @dir entries hnodup hnames hproper =>
      obtain ⟨k, hk, hrest⟩ := Option.bind_eq_some_iff.mp hm
      have hmem := (lookup_eq_some_iff hnodup).mp hk
      obtain ⟨hm, hall⟩ := ih (hproper _ hmem) hrest
      exact ⟨hm, List.forall_mem_cons.mpr ⟨hnames _ hmem, hall⟩⟩

namespace Path

theorem parts_join {base p : Path} (hbase : base.text ≠ "") (hp : p.isAbsolute = false) :
    (base.join p).parts = base.parts ++ p.parts := by
  obtain ⟨before, -, hraw | hraw, hall⟩ := rawParts_join hbase hp
  · rw [parts, parts, parts, hall, hraw, List.filter_append]
  · have hempty : [""].filter isPart = [] := rfl
    rw [parts, parts, parts, hall, hraw, List.filter_append, List.filter_append, hempty,
      List.append_nil]

def down (path : Path) (names : List String) : Path :=
  names.foldl (fun p name => p.join ⟨name⟩) path

section Part

variable {path : Path} {part : String} (hslash : '/' ∉ part.toList)
include hslash

theorem rawParts_part : (⟨part⟩ : Path).rawParts = [part] := by
  simp [rawParts, List.splitOn_eq_singleton hslash]

theorem isAbsolute_part : (⟨part⟩ : Path).isAbsolute = false := by
  rw [Bool.eq_false_iff]
  intro habs
  obtain ⟨cs, hcs⟩ := (isAbsolute_iff _).mp habs
  rw [hcs] at hslash
  exact hslash List.mem_cons_self

private theorem head_join (htext : path.text ≠ "") :
    (path.join ⟨part⟩).rawParts.head? = path.rawParts.head? := by
  obtain ⟨before, hne, hraw, hall⟩ := rawParts_join htext (isAbsolute_part hslash)
  obtain ⟨first, rest, rfl⟩ := List.exists_cons_of_ne_nil hne
  rw [hall]
  rcases hraw with hraw | hraw <;> rw [hraw] <;> rfl

end Part

section Down

variable {path : Path} {names : List String} (htext : path.text ≠ "")
  (hslash : ∀ name ∈ names, '/' ∉ name.toList)
include htext hslash

theorem components_down :
    (path.down names).components = path.components ++ names.filter isPart := by
  induction names generalizing path with
  | nil => exact (List.append_nil _).symm
  | cons name names ih =>
    obtain ⟨hname, hrest⟩ := List.forall_mem_cons.mp hslash
    have hpart : (⟨name⟩ : Path).parts = [name].filter isPart := by
      rw [parts, rawParts_part hname]
    have hstep : (path.join ⟨name⟩).components = path.components ++ [name].filter isPart := by
      rw [components, components, lead, isAbsolute_join htext (isAbsolute_part hname),
        head_join hname htext, parts_join htext (isAbsolute_part hname), hpart, ← lead,
        List.append_assoc]
    have hall := ih (text_join_ne (p := ⟨name⟩) htext) hrest
    rw [hstep, List.append_assoc, ← List.filter_append] at hall
    exact hall

end Down

theorem behind_down {path dir : Path} {names : List String} (htext : path.text ≠ "")
    (hnames : ∀ name ∈ names, IsName name) (hcomponents : path.components = dir.components) :
    (path.down names).behind? dir = some names := by
  have hslash : ∀ name ∈ names, '/' ∉ name.toList := fun name h => (hnames name h).2.2
  have hparts : names.filter isPart = names :=
    List.filter_eq_self.mpr fun name h => (hnames name h).1
  rw [behind?, components_down htext hslash, hparts, hcomponents]
  simp

end Path

theorem Disk.find_down {disk : Disk} {path : Path} {q r : Place} {names : List String}
    (hslash : ∀ name ∈ names, '/' ∉ name.toList) (hq : disk.find path = .ok q)
    (hr : names.foldlM disk.enter q = .ok r) : disk.find (path.down names) = .ok r := by
  induction names generalizing path q with
  | nil =>
    cases hr
    exact hq
  | cons name names ih =>
    obtain ⟨hname, hrest⟩ := List.forall_mem_cons.mp hslash
    have hstep := find_join hq (Path.isAbsolute_part hname)
    rw [Path.rawParts_part hname, List.foldlM_cons] at hstep
    obtain ⟨p, henter, hr⟩ := walk_cons_eq_ok.mp hr
    rw [henter] at hstep
    exact ih hrest hstep hr

namespace Glob

private theorem mem_below {path : Path} {entries : List (String × Node)}
    {x : Path × String × Node} :
    x ∈ below path entries ↔ ∃ entry ∈ entries, x ∈ belowEntry path entry.1 entry.2 := by
  induction entries with
  | nil => simp [below]
  | cons entry entries ih => simp [below, ih]

private theorem mem_belowEntry {path : Path} {name : String} {n : Node} (h : n.Proper)
    {found : Path × String × Node} : found ∈ belowEntry path name n ↔
      ∃ names m, n.at? names = some m ∧
        found = (path.down (name :: names), (name :: names).getLast (by simp), m) := by
  induction h generalizing path name with
  | file content =>
    simp only [belowEntry, List.mem_singleton]
    constructor
    · rintro rfl
      exact ⟨[], _, rfl, rfl⟩
    · rintro ⟨names, m, hm, rfl⟩
      cases names with
      | nil =>
        cases hm
        rfl
      | cons name names => cases hm
  | @dir entries hnodup _ _ ih =>
    rw [belowEntry, List.mem_cons, mem_below]
    constructor
    · rintro (rfl | ⟨entry, hentry, hmem⟩)
      · exact ⟨[], _, rfl, rfl⟩
      · obtain ⟨names, m, hm, rfl⟩ := (ih entry hentry).mp hmem
        refine ⟨entry.1 :: names, m, ?_, rfl⟩
        rw [Node.at?, (lookup_eq_some_iff hnodup).mpr hentry]
        exact hm
    · rintro ⟨names, m, hm, rfl⟩
      cases names with
      | nil =>
        cases hm
        exact .inl rfl
      | cons next names =>
        obtain ⟨k, hk, hrest⟩ := Option.bind_eq_some_iff.mp hm
        have hentry := (lookup_eq_some_iff hnodup).mp hk
        exact .inr ⟨_, hentry, (ih _ hentry).mpr ⟨names, m, hrest, rfl⟩⟩

/-- What is listed below a directory is what names lead to from it. -/
theorem mem_below_iff {path : Path} {entries : List (String × Node)}
    (h : (Node.dir entries).Proper) {found : Path} :
    found ∈ (below path entries).map (·.1) ↔
      ∃ names m, names ≠ [] ∧ (Node.dir entries).at? names = some m ∧ found = path.down names := by
  cases h with
  | dir hnodup _ hproper =>
    rw [List.mem_map]
    constructor
    · rintro ⟨x, hx, rfl⟩
      obtain ⟨entry, hentry, hx⟩ := mem_below.mp hx
      obtain ⟨names, m, hm, rfl⟩ := (mem_belowEntry (hproper entry hentry)).mp hx
      refine ⟨entry.1 :: names, m, by simp, ?_, rfl⟩
      rw [Node.at?, (lookup_eq_some_iff hnodup).mpr hentry]
      exact hm
    · rintro ⟨names, m, hne, hm, rfl⟩
      obtain ⟨name, names, rfl⟩ := List.exists_cons_of_ne_nil hne
      obtain ⟨k, hk, hrest⟩ := Option.bind_eq_some_iff.mp hm
      have hentry := (lookup_eq_some_iff hnodup).mp hk
      exact ⟨_, mem_below.mpr ⟨_, hentry, (mem_belowEntry (hproper _ hentry)).mpr
        ⟨names, m, hrest, rfl⟩⟩, rfl⟩

end Glob

end Stencil
