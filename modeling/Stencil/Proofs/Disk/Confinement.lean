import Stencil.Proofs.Disk.Walk
import Stencil.Source

/-!
# Directories that serve no file outside

What a directory source gives for a name, whatever the name is: the text of a file below its root,
or a refusal where the name leads to a file elsewhere.
-/

namespace Stencil

def Path.IsName (part : String) : Prop :=
  Path.isPart part = true ∧ part ≠ ".." ∧ '/' ∉ part.toList

def Node.isDir : Node → Bool
  | .file _ => false
  | .dir _ => true

namespace Disk

theorem walk_names {d : Disk} {p : Place} {parts : List String} {n : Node} (hp : d.Stands p)
    (hnames : ∀ part ∈ parts, Path.IsName part)
    (h : d.root.at? (names p ++ parts) = some n) :
    ∃ q, parts.foldlM d.enter p = .ok q ∧ d.node q = n ∧ names q = names p ++ parts := by
  induction parts generalizing p with
  | nil =>
    rw [List.append_nil, hp.at_names] at h
    exact ⟨p, rfl, Option.some.inj h, (List.append_nil _).symm⟩
  | cons part parts ih =>
    obtain ⟨hpart, hback, -⟩ := hnames part List.mem_cons_self
    have hrest : ∀ x ∈ parts, Path.IsName x := fun x hx => hnames x (List.mem_cons_of_mem _ hx)
    rw [Node.at?_append, hp.at_names] at h
    cases hdir : d.node p with
    | file content => simp [hdir, Node.at?] at h
    | dir entries =>
      cases hl : entries.lookup part with
      | none => simp [hdir, Node.at?, hl] at h
      | some m =>
        have hq : d.Stands ((part, m) :: p) := ⟨hp, entries, hdir, hl⟩
        have henter : d.enter p part = .ok ((part, m) :: p) := by
          simp [enter, hdir, hpart, hback, hl]
        have hbelow : d.root.at? (names ((part, m) :: p) ++ parts) = some n := by
          rw [Node.at?_append, hq.at_names]
          simp only [Option.bind_some, hdir, Node.at?, hl] at h
          exact h
        obtain ⟨q, hwalk, hnode, hnamesq⟩ := ih hq hrest hbelow
        refine ⟨q, ?_, hnode, ?_⟩
        · rw [List.foldlM_cons, henter]
          exact hwalk
        · simp [hnamesq]

/-- Disks with the same files and directories, and the same contents at and below a place. Other
files may have other contents. -/
structure Resembles (base : List String) (d e : Disk) : Prop where
  current : e.current = d.current
  kinds : ∀ names, (e.root.at? names).map Node.isDir = (d.root.at? names).map Node.isDir
  below : e.root.at? base = d.root.at? base

namespace Resembles

variable {base : List String} {d e : Disk} {p q : Place}

private theorem enter (h : Resembles base d e) (hp : d.Stands p) (hq : e.Stands q)
    (hpq : names p = names q) (part : String) :
    (d.enter p part).map names = (e.enter q part).map names := by
  have hkind := h.kinds (names q)
  rw [hq.at_names, ← hpq, hp.at_names] at hkind
  unfold Disk.enter
  cases hn : d.node p with
  | file content =>
    cases hm : e.node q with
    | file other => rfl
    | dir entries => simp [hn, hm, Node.isDir] at hkind
  | dir entries =>
    cases hm : e.node q with
    | file content => simp [hn, hm, Node.isDir] at hkind
    | dir others =>
      have hchild := h.kinds (names q ++ [part])
      rw [Node.at?_append, hq.at_names, ← hpq, Node.at?_append, hp.at_names] at hchild
      simp only [hn, hm, Node.at?, Option.bind_some] at hchild
      by_cases hpart : Path.isPart part = true
      · by_cases hback : part = ".."
        · have hsame : names p.tail = names q.tail := by rw [names_tail, names_tail, hpq]
          simpa [hpart, hback, Except.map, Path.isPart] using hsame
        · cases hl : entries.lookup part <;> cases ho : others.lookup part
          · simp [hpart, hback, hl, ho, Except.map]
          · simp [hl, ho] at hchild
          · simp [hl, ho] at hchild
          · simp [hpart, hback, hl, ho, Except.map, hpq]
      · simp [hpart, Except.map, hpq]

private theorem walk (h : Resembles base d e) (hp : d.Stands p) (hq : e.Stands q)
    (hpq : names p = names q) (parts : List String) :
    (parts.foldlM d.enter p).map names = (parts.foldlM e.enter q).map names := by
  induction parts generalizing p q with
  | nil => exact congrArg Except.ok hpq
  | cons part parts ih =>
    have hstep := h.enter hp hq hpq part
    rw [List.foldlM_cons, List.foldlM_cons]
    cases hr : d.enter p part with
    | error fault =>
      cases hs : e.enter q part with
      | error other =>
        rw [hr, hs] at hstep
        cases hstep
        rfl
      | ok s => simp [hr, hs, Except.map] at hstep
    | ok r =>
      cases hs : e.enter q part with
      | error other => simp [hr, hs, Except.map] at hstep
      | ok s =>
        have hrs : names r = names s := by simpa [hr, hs, Except.map] using hstep
        exact ih (hp.enter hr) (hq.enter hs) hrs

private theorem find (h : Resembles base d e) (path : Path) :
    (d.find path).map names = (e.find path).map names := by
  by_cases htext : path.text = ""
  · simp [Disk.find, htext, Except.map]
  · have horigin : (d.origin path).map names = (e.origin path).map names := by
      unfold origin
      rw [h.current]
      by_cases habs : path.isAbsolute = true
      · simp [habs]
      · simpa [habs] using h.walk (p := []) (q := []) trivial trivial rfl d.current
    rw [find_eq d htext, find_eq e htext]
    cases hr : d.origin path with
    | error fault =>
      cases hs : e.origin path with
      | error other =>
        rw [hr, hs] at horigin
        cases horigin
        rfl
      | ok s => simp [hr, hs, Except.map] at horigin
    | ok r =>
      cases hs : e.origin path with
      | error other => simp [hr, hs, Except.map] at horigin
      | ok s =>
        have hrs : names r = names s := by simpa [hr, hs, Except.map] using horigin
        exact h.walk (stands_origin hr) (stands_origin hs) hrs _

end Resembles

end Disk

private theorem Disk.decode_eq_ok {content : ByteArray} {text : String} :
    decode content = .ok text ↔ content = text.toUTF8 := by
  unfold decode String.fromUTF8?
  by_cases h : content.IsValidUTF8
  · have hinj : String.fromUTF8 content h = text ↔ content = text.toUTF8 :=
      (String.toByteArray_inj (s := String.fromUTF8 content h)).symm
    simp [h, hinj]
  · have hne : content ≠ text.toUTF8 := by
      intro he
      exact h (he ▸ text.isValidUTF8)
    simpa [h] using hne

namespace Source

open Disk

def served (disk : Disk) (base : List String) (name : String) :
    Except ReadFault (List String) → Except TemplateError (Option String)
  | .error _ => .ok none
  | .ok target =>
    match disk.root.at? target with
    | some (.file content) =>
      if base <+: target then
        match decode content with
        | .ok text => .ok (some text)
        | .error fault => .error (.io fault.message)
      else .error (.resolution ("Path '" ++ name ++ "' escapes the template directory"))
    | _ => .ok none

variable {disk : Disk} {root : Path} {base : Place} {entries : List (String × Node)}

theorem load_directory (hroot : disk.find root = .ok base) (name : String) :
    load (.directory disk root) name =
      served disk (names base) name ((disk.find (root.join (relative name))).map names) := by
  rw [load, readBelow, hroot]
  cases hplace : disk.find (root.join (relative name)) with
  | error fault => rfl
  | ok place =>
    simp only [Except.map, served, (stands_of_find hplace).at_names]
    cases disk.node place with
    | dir entries => rfl
    | file content =>
      refine ite_congr (propext List.isPrefixOf_iff_prefix) (fun _ => ?_) fun _ => rfl
      cases decode content <;> rfl

theorem served_eq_some {target base : List String} {name text : String} :
    served disk base name (.ok target) = .ok (some text) ↔
      base <+: target ∧ disk.root.at? target = some (.file text.toUTF8) := by
  simp only [served]
  cases hn : disk.root.at? target with
  | none => simp
  | some n =>
    cases n with
    | dir entries => simp
    | file content =>
      by_cases hbase : base <+: target
      · have htext : decode content = .ok text ↔ content = text.toUTF8 := decode_eq_ok
        simp only [hbase, if_true, true_and, Option.some.injEq, Node.file.injEq]
        rw [← htext]
        cases decode content <;> simp
      · simp [hbase]

private theorem served_eq_refusal {target base : List String} {name : String} :
    (∃ message, served disk base name (.ok target) = .error (.resolution message)) ↔
      ∃ content, disk.root.at? target = some (.file content) ∧ ¬ base <+: target := by
  simp only [served]
  cases hn : disk.root.at? target with
  | none => simp
  | some n =>
    cases n with
    | dir entries => simp
    | file content =>
      by_cases hbase : base <+: target
      · simp only [hbase, if_true]
        cases decode content <;> simp
      · simp [hbase]

private theorem served_resembles {base : List String} {other : Disk} (h : disk.Resembles base other)
    (name : String) (target : Except ReadFault (List String)) :
    served other base name target = served disk base name target := by
  cases target with
  | error fault => rfl
  | ok target =>
    simp only [served]
    by_cases hbase : base <+: target
    · obtain ⟨below, rfl⟩ := hbase
      rw [Node.at?_append, Node.at?_append, h.below]
    · have hkind := h.kinds target
      cases hn : disk.root.at? target with
      | none =>
        cases hm : other.root.at? target with
        | none => rfl
        | some m => simp [hn, hm] at hkind
      | some n =>
        cases hm : other.root.at? target with
        | none => simp [hn, hm] at hkind
        | some m =>
          cases n <;> cases m <;> simp [hn, hm, Node.isDir, hbase] at hkind ⊢

private theorem not_isAbsolute_name {part : String} (h : Path.IsName part) (rest : String) :
    (⟨part ++ rest⟩ : Path).isAbsolute = false := by
  obtain ⟨hpart, -, hslash⟩ := h
  rw [Bool.eq_false_iff]
  intro habs
  obtain ⟨cs, hcs⟩ := (Path.isAbsolute_iff _).mp habs
  rw [String.toList_append] at hcs
  cases hp : part.toList with
  | nil => simp [Path.isPart, String.toList_eq_nil_iff.mp hp] at hpart
  | cons c rest =>
    rw [hp, List.cons_append] at hcs
    have hc : c = '/' := (List.cons.inj hcs).1
    exact hslash (by simp [hp, hc])

section Relative

variable {parts : List String} (hne : parts ≠ []) (hnames : ∀ part ∈ parts, Path.IsName part)

include hne hnames

private theorem not_isAbsolute_names : (⟨"/".intercalate parts⟩ : Path).isAbsolute = false := by
  cases parts with
  | nil => exact absurd rfl hne
  | cons part rest =>
    have hpart := hnames part List.mem_cons_self
    by_cases hrest : rest = []
    · simpa [hrest] using not_isAbsolute_name hpart ""
    · rw [String.intercalate_cons_of_ne_nil hrest, String.append_assoc]
      exact not_isAbsolute_name hpart _

theorem rawParts_names : (⟨"/".intercalate parts⟩ : Path).rawParts = parts :=
  Path.rawParts_intercalate hne fun part hpart => (hnames part hpart).2.2

/-- The names of a file lead to it from any directory above, written one after another. -/
private theorem find_relative {n : Node} (hroot : disk.find root = .ok base)
    (hn : disk.root.at? (names base ++ parts) = some n) :
    (disk.find (root.join ⟨"/".intercalate parts⟩)).map names = .ok (names base ++ parts) := by
  obtain ⟨place, hwalk, -, hplace⟩ := walk_names (stands_of_find hroot) hnames hn
  rw [find_join hroot (not_isAbsolute_names hne hnames), rawParts_names hne hnames, hwalk]
  exact congrArg Except.ok hplace

end Relative

theorem relative_of_not_absolute {name : String} (h : (⟨name⟩ : Path).isAbsolute = false) :
    relative name = ⟨name⟩ := by
  unfold relative
  split
  · next cs hcs =>
    have habs : (⟨name⟩ : Path).isAbsolute = true := (Path.isAbsolute_iff _).mpr ⟨cs, hcs⟩
    rw [h] at habs
    cases habs
  · rfl

theorem relative_slash (name : String) : relative ("/" ++ name) = ⟨name⟩ := by
  have hslash : "/".toList = ['/'] := rfl
  simp [relative, hslash]

section Directory

variable (hroot : disk.find root = .ok base)

include hroot

private theorem ne_nil_of_file (hdir : disk.node base = .dir entries) {below : List String}
    {content : ByteArray} (h : disk.root.at? (names base ++ below) = some (.file content)) :
    below ≠ [] := by
  intro he
  rw [he, List.append_nil, (stands_of_find hroot).at_names, hdir] at h
  cases h

theorem load_eq_some (hdir : disk.node base = .dir entries) (name text : String) :
    load (.directory disk root) name = .ok (some text) ↔
      ∃ place below, disk.find (root.join (relative name)) = .ok place ∧ below ≠ [] ∧
        names place = names base ++ below ∧
        disk.root.at? (names base ++ below) = some (.file text.toUTF8) := by
  rw [load_directory hroot]
  constructor
  · intro h
    cases hplace : disk.find (root.join (relative name)) with
    | error fault => simp [hplace, Except.map, served] at h
    | ok place =>
      rw [hplace] at h
      obtain ⟨⟨below, hnames⟩, hfile⟩ := served_eq_some.mp h
      rw [← hnames] at hfile
      exact ⟨place, below, rfl, ne_nil_of_file hroot hdir hfile, hnames.symm, hfile⟩
  · intro h
    obtain ⟨place, below, hplace, -, hnames, hfile⟩ := h
    rw [hplace]
    apply served_eq_some.mpr
    rw [hnames]
    exact ⟨List.prefix_append _ _, hfile⟩

private theorem load_refused (name : String) :
    (∃ message, load (.directory disk root) name = .error (.resolution message)) ↔
      ∃ place content, disk.find (root.join (relative name)) = .ok place ∧
        disk.root.at? (names place) = some (.file content) ∧ ¬ names base <+: names place := by
  rw [load_directory hroot]
  cases hplace : disk.find (root.join (relative name)) with
  | error fault => simp [Except.map, served]
  | ok place =>
    refine served_eq_refusal.trans ?_
    simp

private theorem load_resembles {other : Disk} (h : disk.Resembles (names base) other)
    (name : String) :
    load (.directory other root) name = load (.directory disk root) name := by
  have hfind := h.find root
  rw [hroot] at hfind
  cases hother : other.find root with
  | error fault => simp [hother, Except.map] at hfind
  | ok place =>
    have hplace : names base = names place := by simpa [hother, Except.map] using hfind
    rw [load_directory hroot, load_directory hother, ← hplace, h.find, served_resembles h]

private theorem load_below (hdir : disk.node base = .dir entries) {below : List String}
    {text : String} (hnames : ∀ part ∈ below, Path.IsName part)
    (hfile : disk.root.at? (names base ++ below) = some (.file text.toUTF8)) {name : String}
    (hname : relative name = ⟨"/".intercalate below⟩) :
    load (.directory disk root) name = .ok (some text) := by
  have hdecode : decode text.toUTF8 = .ok text := decode_eq_ok.mpr rfl
  have hne := ne_nil_of_file hroot hdir hfile
  rw [load_directory hroot, hname, find_relative hne hnames hroot hfile]
  simp only [served, hfile, List.prefix_append, if_true, hdecode]

end Directory

/-- A directory serves the texts of the files below it, each under its names from there on with a
slash in front or without, and nothing else: a name that leads to a file elsewhere is refused, and
the contents of files elsewhere make no difference. -/
theorem directory_confined (disk : Disk) (root : Path) {base : Place}
    {entries : List (String × Node)} (hroot : disk.find root = .ok base)
    (hdir : disk.node base = .dir entries) :
    (∀ name text, load (.directory disk root) name = .ok (some text) ↔
      ∃ place below, disk.find (root.join (relative name)) = .ok place ∧ below ≠ [] ∧
        names place = names base ++ below ∧
        disk.root.at? (names base ++ below) = some (.file text.toUTF8)) ∧
    (∀ name, (∃ message, load (.directory disk root) name = .error (.resolution message)) ↔
      ∃ place content, disk.find (root.join (relative name)) = .ok place ∧
        disk.root.at? (names place) = some (.file content) ∧ ¬ names base <+: names place) ∧
    (∀ name (other : Disk), disk.Resembles (names base) other →
      load (.directory other root) name = load (.directory disk root) name) ∧
    ∀ below text, (∀ part ∈ below, Path.IsName part) →
      disk.root.at? (names base ++ below) = some (.file text.toUTF8) →
        load (.directory disk root) ("/".intercalate below) = .ok (some text) ∧
        load (.directory disk root) ("/" ++ "/".intercalate below) = .ok (some text) := by
  refine ⟨load_eq_some hroot hdir, load_refused hroot,
    fun name other h => load_resembles hroot h name, ?_⟩
  intro below text hnames hfile
  have hne := ne_nil_of_file hroot hdir hfile
  have hplain := relative_of_not_absolute (not_isAbsolute_names hne hnames)
  exact ⟨load_below hroot hdir hnames hfile hplain,
    load_below hroot hdir hnames hfile (relative_slash _)⟩

/-- A directory whose name begins with the name of the root is still outside. -/
theorem directory_beside :
    let disk : Disk := ⟨.dir [("srv", .dir [
      ("t", .dir [("b", .dir [("c.txt", .file "C".toUTF8)])]),
      ("t2", .dir [("x", .file "X".toUTF8)])])], ["srv"]⟩
    load (.directory disk ⟨"t/"⟩) "b/c.txt" = .ok (some "C") ∧
      load (.directory disk ⟨"t/"⟩) "/b/c.txt" = .ok (some "C") ∧
      ∃ message, load (.directory disk ⟨"t/"⟩) "../t2/x" = .error (.resolution message) := by
  intro disk
  have hroot : (⟨"t/"⟩ : Path).isAbsolute = false := by decide +kernel
  have hback : (⟨"../t2/x"⟩ : Path).isAbsolute = false := by decide +kernel
  have hfind : disk.find ⟨"t/"⟩ = .ok [("t", .dir [("b", .dir [("c.txt", .file "C".toUTF8)])]),
      ("srv", .dir [("t", .dir [("b", .dir [("c.txt", .file "C".toUTF8)])]),
        ("t2", .dir [("x", .file "X".toUTF8)])])] := by
    rw [find_eq _ (by decide), origin, onward, hroot]
    rfl
  obtain ⟨-, hrefused, -, hserved⟩ := directory_confined disk ⟨"t/"⟩ hfind rfl
  obtain ⟨hplain, hslash⟩ := hserved ["b", "c.txt"] "C"
    (by simp [Path.IsName, Path.isPart]) rfl
  refine ⟨hplain, hslash, (hrefused "../t2/x").mpr ?_⟩
  have hname : relative "../t2/x" = ⟨"../t2/x"⟩ := relative_of_not_absolute hback
  rw [hname, find_join hfind hback]
  exact ⟨_, _, rfl, rfl, by decide⟩

end Source

end Stencil
