import Stencil.Project.Command
import Stencil.Proofs.Disk.Pattern
import Stencil.Proofs.Text.Bytes

/-!
# Finding the templates of a project

The names of a project's templates are those of the files below its directories, each once and in
order, as long as the directories are written without the signs of patterns.
-/

namespace Stencil

/-- A file below a directory, under the names that lead to it with slashes between them. -/
def Disk.Keeps (disk : Disk) (dir : Path) (name : String) (content : ByteArray) : Prop :=
  ∃ q below, disk.find dir = .ok q ∧ below ≠ [] ∧
    (disk.node q).at? below = some (.file content) ∧ name = "/".intercalate below

def Disk.Listed (disk : Disk) (dir : Path) (name : String) : Prop :=
  ∃ content, disk.Keeps dir name content

theorem Disk.Proper.found {disk : Disk} (hd : disk.Proper) {dir : Path} {q : Place}
    (hq : disk.find dir = .ok q) : (disk.node q).Proper :=
  (hd.proper.at? (stands_of_find hq).at_names).1

private theorem Disk.find_below {disk : Disk} {path : Path} {q : Place} {names : List String}
    {n : Node} (hq : disk.find path = .ok q) (hnames : ∀ name ∈ names, Path.IsName name)
    (hn : (disk.node q).at? names = some n) :
    ∃ r, disk.find (path.down names) = .ok r ∧ disk.node r = n := by
  have hstands := stands_of_find hq
  obtain ⟨r, hwalk, hnode, -⟩ := walk_names (n := n) hstands hnames (by
    rw [Node.at?_append, hstands.at_names]
    exact hn)
  exact ⟨r, find_down (fun name h => (hnames name h).2.2) hq hwalk, hnode⟩

theorem Disk.isFile_iff {disk : Disk} {path : Path} : disk.isFile path = true ↔
    ∃ q content, disk.find path = .ok q ∧ disk.node q = .file content := by
  rw [isFile]
  cases disk.find path with
  | error fault => simp
  | ok q =>
    dsimp only
    cases hnode : disk.node q <;> simp [hnode]

namespace Config

private theorem mem_namesIn {disk : Disk} {dir : Path} (hd : disk.Proper) (h : Glob.Literal dir) :
    ∃ names, namesIn disk dir = .ok names ∧ ∀ name, name ∈ names ↔ disk.Listed dir name := by
  obtain ⟨paths, hpaths, hlists⟩ := Glob.find_lists hd h
  refine ⟨_, by rw [namesIn, ← Glob.everything, hpaths]; rfl, fun name => ?_⟩
  rw [List.mem_filterMap]
  cases hlists with
  | nothing hnone =>
    constructor
    · rintro ⟨path, hpath, -⟩
      cases hpath
    · rintro ⟨content, q, below, hq, hne, hat, -⟩
      cases hnode : disk.node q with
      | dir entries => exact absurd hnode (hnone q entries hq)
      | file content' =>
        obtain ⟨first, rest, rfl⟩ := List.exists_cons_of_ne_nil hne
        rw [hnode] at hat
        cases hat
  | @directory path q entries hq hnode hleads =>
    -- The paths that are listed are behind the directory by the names that lead to the files.
    have hproper := hd.found hq
    have htext := Disk.text_ne_of_find hleads.found
    rw [hnode] at hproper
    constructor
    · rintro ⟨found, hmem, hname⟩
      obtain ⟨hmem, hfile⟩ := List.mem_filter.mp hmem
      obtain ⟨names, n, hne, hat, rfl⟩ := (Glob.mem_below_iff hproper).mp hmem
      have hnames := (hproper.at? hat).2
      rw [← hnode] at hat
      obtain ⟨r, hr, hnode'⟩ := Disk.find_below hleads.found hnames hat
      obtain ⟨r', content, hr', hcontent⟩ := Disk.isFile_iff.mp hfile
      obtain rfl : r = r' := Except.ok.inj (hr.symm.trans hr')
      rw [Path.behind_down htext hnames hleads.components] at hname
      rw [← hnode', hcontent] at hat
      exact ⟨content, q, names, hq, hne, hat, (Option.some.inj hname).symm⟩
    · rintro ⟨content, q', names, hq', hne, hat, rfl⟩
      obtain rfl : q = q' := Except.ok.inj (hq.symm.trans hq')
      have hnames := (hproper.at? (hnode ▸ hat)).2
      obtain ⟨r, hr, hnode'⟩ := Disk.find_below hleads.found hnames hat
      refine ⟨path.down names, List.mem_filter.mpr ⟨?_, ?_⟩, ?_⟩
      · exact (Glob.mem_below_iff hproper).mpr ⟨names, _, hne, hnode ▸ hat, rfl⟩
      · exact Disk.isFile_iff.mpr ⟨r, content, hr, hnode'⟩
      · rw [Path.behind_down htext hnames hleads.components]
        rfl

theorem mapM_namesIn {disk : Disk} {dirs : List Path} (hd : disk.Proper)
    (h : ∀ dir ∈ dirs, Glob.Literal dir) :
    ∃ names, dirs.mapM (namesIn disk) = .ok names ∧
      ∀ name, name ∈ names.flatten ↔ ∃ dir ∈ dirs, disk.Listed dir name := by
  induction dirs with
  | nil => exact ⟨[], rfl, by simp⟩
  | cons dir dirs ih =>
    obtain ⟨hdir, hrest⟩ := List.forall_mem_cons.mp h
    obtain ⟨first, hfirst, hmem⟩ := mem_namesIn hd hdir
    obtain ⟨rest, hall, hmems⟩ := ih hrest
    refine ⟨first :: rest, by rw [List.mapM_cons, hfirst, hall]; rfl, fun name => ?_⟩
    rw [List.flatten_cons, List.mem_append, hmem, hmems]
    simp

private theorem ascending_eraseDups {names : List String} (h : names.Pairwise (· ≤ ·)) :
    names.eraseDups.Pairwise (· < ·) := by
  induction hn : names.length using Nat.strongRecOn generalizing names with
  | _ n ih =>
    cases names with
    | nil => exact .nil
    | cons name names =>
      obtain ⟨hname, hrest⟩ := List.pairwise_cons.mp h
      rw [List.length_cons] at hn
      have hlength := List.length_filter_le (fun other => !other == name) names
      rw [List.eraseDups_cons]
      refine List.pairwise_cons.mpr ⟨fun other hother => ?_, ih _ (by omega) (hrest.filter _) rfl⟩
      rw [List.mem_eraseDups, List.mem_filter] at hother
      obtain ⟨hmem, hne⟩ := hother
      have hne : other ≠ name := by simpa using hne
      exact String.not_le.mp fun hle => hne (String.le_antisymm hle (hname other hmem))

theorem eq_ok_of_toOption {ε α : Type} {x : Except ε α} {a : α} (h : x.toOption = some a) :
    x = .ok a := by
  cases x with
  | error fault => cases h
  | ok b => exact congrArg Except.ok (Option.some.inj h)

theorem discover_of_lists {c : Config} {disk : Disk} {lists : List (List String)}
    (h : c.templateDirs.mapM (namesIn disk) = .ok lists) :
    ∃ names, c.discover disk = .ok names ∧ ∀ name, name ∈ names ↔ name ∈ lists.flatten := by
  refine ⟨_, by rw [discover, h], fun name => ?_⟩
  rw [List.mem_eraseDups, (List.mergeSort_perm _ _).mem_iff]

private theorem discover_ascending {c : Config} {disk : Disk} {names : List String}
    (h : c.discover disk = .ok names) :
    names.Pairwise fun a b => Text.bytes a < Text.bytes b := by
  unfold discover at h
  split at h
  · cases h
    refine (ascending_eraseDups ?_).imp Text.bytes_lt
    have hsorted : ∀ found : List String, (found.mergeSort fun a b => decide (a ≤ b)).Pairwise
        fun a b => decide (a ≤ b) = true :=
      List.pairwise_mergeSort (fun a b c => by simpa using String.le_trans)
        fun a b => by simpa using String.le_total a b
    simpa using hsorted _
  · cases h

/-- The names of a project's templates are those of the files below its directories, in order and
each once, if the directories are written without the signs of patterns and without a dot in
front. -/
theorem discover_exact (c : Config) {disk : Disk} (hd : disk.Proper)
    (h : ∀ dir ∈ c.templateDirs, Glob.Literal dir) :
    ∃ names, c.discover disk = .ok names ∧
      names.Pairwise (fun a b => Text.bytes a < Text.bytes b) ∧
      ∀ name, name ∈ names ↔ ∃ dir ∈ c.templateDirs, disk.Listed dir name := by
  obtain ⟨lists, hlists, hmem⟩ := mapM_namesIn hd h
  obtain ⟨names, hdiscover, hnames⟩ := discover_of_lists hlists
  exact ⟨names, hdiscover, discover_ascending hdiscover, fun name => by rw [hnames, hmem]⟩

/-- A directory within another, one that is missing and one that is given twice. -/
theorem discover_exact_nested :
    let t : Node := .dir [("x", .file "X".toUTF8), ("a", .dir [("b", .file "B".toUTF8)])]
    let disk : Disk := ⟨.dir [("srv", .dir [("t", t)])], ["srv"]⟩
    let c : Config := { Config.standard with base := ⟨"/srv"⟩, dirs := ["t", "t/a", "absent", "t"] }
    ∃ names, c.discover disk = .ok names ∧
      names.Pairwise (fun a b => Text.bytes a < Text.bytes b) ∧
      "a/b" ∈ names ∧ "b" ∈ names ∧ "x" ∈ names := by
  intro t disk c
  have ha : (Node.dir [("b", .file "B".toUTF8)]).Proper :=
    .dir (by decide) (by decide) (List.forall_mem_cons.mpr ⟨.file _, by simp⟩)
  have ht : t.Proper :=
    .dir (by decide) (by decide) (List.forall_mem_cons.mpr ⟨.file _,
      List.forall_mem_cons.mpr ⟨ha, by simp⟩⟩)
  have hsrv : (Node.dir [("t", t)]).Proper :=
    .dir (by decide) (by decide) (List.forall_mem_cons.mpr ⟨ht, by simp⟩)
  have hdisk : disk.Proper :=
    ⟨.dir (by decide) (by decide) (List.forall_mem_cons.mpr ⟨hsrv, by simp⟩), ⟨_, rfl⟩,
      ⟨_, _, rfl, rfl⟩⟩
  obtain ⟨names, hnames, hascending, hmem⟩ := c.discover_exact hdisk (by decide +kernel)
  have hdirs : c.templateDirs = [⟨"/srv/t"⟩, ⟨"/srv/t/a"⟩, ⟨"/srv/absent"⟩, ⟨"/srv/t"⟩] := by
    decide +kernel
  rw [hdirs] at hmem
  have hfind : disk.find ⟨"/srv/t"⟩ = .ok [("t", t), ("srv", .dir [("t", t)])] :=
    (Disk.find_absolute (by decide +kernel)).trans rfl
  have hwithin : ∃ p, disk.find ⟨"/srv/t/a"⟩ = .ok (("a", .dir [("b", .file "B".toUTF8)]) :: p) :=
    ⟨_, (Disk.find_absolute (by decide +kernel)).trans rfl⟩
  obtain ⟨p, hwithin⟩ := hwithin
  refine ⟨names, hnames, hascending, (hmem _).mpr ?_, (hmem _).mpr ?_, (hmem _).mpr ?_⟩
  · exact ⟨_, by simp, _, _, ["a", "b"], hfind, by simp, rfl, by decide⟩
  · exact ⟨⟨"/srv/t/a"⟩, by simp, _, _, ["b"], hwithin, by simp, rfl, by decide⟩
  · exact ⟨_, by simp, _, _, ["x"], hfind, by simp, rfl, by decide⟩

/-- A directory with a bracket in its name is there, and no template in it is found. -/
theorem discover_exact_bracket :
    let disk : Disk := ⟨.dir [("srv", .dir [("a[b]", .dir [("x", .file "X".toUTF8)])])], ["srv"]⟩
    let c : Config := { Config.standard with base := ⟨"/srv"⟩, dirs := ["a[b]"] }
    c.templateDirs = [⟨"/srv/a[b]"⟩] ∧ disk.Listed ⟨"/srv/a[b]"⟩ "x" ∧
      c.discover disk = .ok [] := by
  intro disk c
  have hlists : c.templateDirs.mapM (namesIn disk) = .ok [[]] :=
    eq_ok_of_toOption (by decide +kernel)
  have hfind : ∃ p,
      disk.find ⟨"/srv/a[b]"⟩ = .ok (("a[b]", .dir [("x", .file "X".toUTF8)]) :: p) :=
    ⟨_, (Disk.find_absolute (by decide +kernel)).trans rfl⟩
  obtain ⟨p, hfind⟩ := hfind
  refine ⟨by decide +kernel, ⟨_, _, ["x"], hfind, by simp, rfl, by decide⟩, ?_⟩
  rw [discover, hlists]
  simp

end Config

end Stencil
