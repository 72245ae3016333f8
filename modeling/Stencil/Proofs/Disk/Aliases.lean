import Stencil.Proofs.Disk.Confinement
import Stencil.Proofs.Text.Blanks
import Stencil.Template.Compile

/-!
# Names of one file

A file has many names in a directory: with a slash in front, with detours, from the root. All of
them end in the name of its entry, so whatever goes by the extension is the same for all of them.
-/

namespace Stencil

namespace Disk

variable {d : Disk} {p q : Place}

theorem enter_dir {part : String} (h : d.enter p part = .ok q) :
    ∃ entries, d.node p = .dir entries := by
  unfold enter at h
  cases hn : d.node p with
  | file content => simp [hn] at h
  | dir entries => exact ⟨entries, rfl⟩

private theorem Stands.tail_dir (hp : d.Stands p) {entries : List (String × Node)}
    (h : d.node p = .dir entries) : ∃ entries, d.node p.tail = .dir entries := by
  cases p with
  | nil => exact ⟨entries, h⟩
  | cons entry p =>
    obtain ⟨-, around, hdir, -⟩ := hp
    exact ⟨around, hdir⟩

/-- Only the name of an entry leads on to a file. -/
private theorem Stands.enter_file (hp : d.Stands p) {part : String} {content : ByteArray}
    (h : d.enter p part = .ok q) (hq : d.node q = .file content) :
    Path.isPart part = true ∧ part ≠ ".." ∧ names q = names p ++ [part] := by
  obtain ⟨entries, hdir⟩ := enter_dir h
  have hstay : q ≠ p := by
    rintro rfl
    rw [hdir] at hq
    cases hq
  have hback : q ≠ p.tail := by
    rintro rfl
    obtain ⟨around, htail⟩ := hp.tail_dir hdir
    rw [htail] at hq
    cases hq
  refine ⟨?_, ?_, ?_⟩
  · cases hpart : Path.isPart part with
    | true => rfl
    | false =>
      simp only [Disk.enter, hdir, hpart, Bool.not_false, if_true] at h
      exact absurd (Except.ok.inj h).symm hstay
  · rintro rfl
    simp only [Disk.enter, hdir] at h
    exact hback (Except.ok.inj h).symm
  · rcases enter_eq_ok h with he | he | ⟨n, around, rfl, -, -⟩
    · exact absurd he hstay
    · exact absurd he hback
    · rw [names_cons]

private theorem Stands.walk_file (hp : d.Stands p) {parts : List String} (hne : parts ≠ [])
    {content : ByteArray} (h : parts.foldlM d.enter p = .ok q) (hq : d.node q = .file content) :
    ∃ file, parts.getLast? = some file ∧ (names q).getLast? = some file ∧
      Path.isPart file = true ∧ file ≠ ".." := by
  obtain ⟨front, file, rfl⟩ : ∃ front file, parts = front ++ [file] :=
    ⟨_, _, (List.dropLast_concat_getLast hne).symm⟩
  obtain ⟨r, hfront, hlast⟩ := walk_append_eq_ok.mp h
  obtain ⟨t, hlast, hnil⟩ := walk_cons_eq_ok.mp hlast
  cases hnil
  obtain ⟨hpart, hback, hnames⟩ := (hp.walk hfront).enter_file hlast hq
  exact ⟨file, by simp, by simp [hnames], hpart, hback⟩

end Disk

namespace Path

theorem rawParts_ne_nil (p : Path) : p.rawParts ≠ [] := by
  intro h
  exact List.splitOn_ne_nil _ _ (List.map_eq_nil_iff.mp h)

private theorem rawParts_absolute {p : Path} {cs : List Char} (h : p.text.toList = '/' :: cs) :
    p.rawParts = "" :: (⟨String.ofList cs⟩ : Path).rawParts := by
  simp [rawParts, h, List.splitOn_cons_eq_if_modifyHead]

private theorem getLast?_rawParts_absolute {p : Path} {cs : List Char}
    (h : p.text.toList = '/' :: cs) :
    p.rawParts.getLast? = (⟨String.ofList cs⟩ : Path).rawParts.getLast? := by
  rw [rawParts_absolute h, List.getLast?_cons_of_ne_nil (rawParts_ne_nil _)]

private theorem getLast?_rawParts_join (base p : Path) :
    (base.join p).rawParts.getLast? = p.rawParts.getLast? := by
  by_cases hp : p.isAbsolute = true
  · simp [join, hp]
  · by_cases hbase : base.text = ""
    · simp [join, hbase]
    · obtain ⟨before, -, -, hparts⟩ := rawParts_join hbase (Bool.not_eq_true _ ▸ hp)
      rw [hparts, List.getLast?_append,
        List.getLast?_eq_some_getLast (rawParts_ne_nil p), Option.some_or]

private theorem fileName?_of_last {p : Path} {file : String} (h : p.rawParts.getLast? = some file)
    (hpart : isPart file = true) (hback : file ≠ "..") : p.fileName? = some file := by
  obtain ⟨front, hfront⟩ := List.getLast?_eq_some_iff.mp h
  have hlast : p.parts.getLast? = some file := by
    simp [parts, hfront, hpart]
  unfold fileName?
  rw [hlast]
  split
  · rename_i he
    exact absurd (Option.some.inj he) hback
  · rfl

private theorem extensionOf_append {stem extension : List Char} (hstem : stem ≠ [])
    (hdot : '.' ∉ extension) : extensionOf (stem ++ '.' :: extension) = some extension := by
  have hbehind : (stem ++ '.' :: extension).reverse.takeWhile (· ≠ '.') = extension.reverse := by
    rw [List.reverse_append, List.reverse_cons, List.append_assoc]
    apply Text.takeWhile_run
    · intro c hc
      have hne : c ≠ '.' := fun he => hdot (List.mem_reverse.mp (he ▸ hc))
      simpa using hne
    · simp
  have hpos := List.length_pos_iff.mpr hstem
  unfold extensionOf
  rw [hbehind, if_pos]
  · rw [List.reverse_reverse]
  · simp only [List.length_reverse, List.length_append, List.length_cons]
    omega

end Path

namespace Disk

private theorem onward_spec (path : Path) :
    onward path ≠ [] ∧ (onward path).getLast? = path.rawParts.getLast? := by
  unfold onward
  cases habs : path.isAbsolute with
  | false => exact ⟨Path.rawParts_ne_nil path, rfl⟩
  | true =>
    obtain ⟨cs, hcs⟩ := (Path.isAbsolute_iff path).mp habs
    rw [if_pos rfl, Path.rawParts_absolute hcs, List.tail_cons]
    exact ⟨Path.rawParts_ne_nil _, (List.getLast?_cons_of_ne_nil (Path.rawParts_ne_nil _)).symm⟩

private theorem file_of_find {d : Disk} {path : Path} {place : Place} {content : ByteArray}
    (h : d.find path = .ok place) (hfile : d.node place = .file content) :
    ∃ file, path.rawParts.getLast? = some file ∧ (names place).getLast? = some file ∧
      Path.isPart file = true ∧ file ≠ ".." := by
  obtain ⟨hne, hlast⟩ := onward_spec path
  rw [find_eq d (text_ne_of_find h)] at h
  cases ho : d.origin path with
  | error fault => simp [ho, Except.bind] at h
  | ok start =>
    rw [ho] at h
    rw [← hlast]
    exact (stands_origin ho).walk_file hne h hfile

end Disk

namespace Source

open Disk

variable {disk : Disk} {root : Path} {name text : String}

private theorem getLast?_rawParts_relative (name : String) :
    (relative name).rawParts.getLast? = (⟨name⟩ : Path).rawParts.getLast? := by
  unfold relative
  split
  · rename_i cs hcs
    exact (Path.getLast?_rawParts_absolute (p := ⟨name⟩) hcs).symm
  · rfl

private theorem find_of_load (h : load (.directory disk root) name = .ok (some text)) :
    ∃ place, disk.find (root.join (relative name)) = .ok place ∧
      disk.node place = .file text.toUTF8 := by
  cases hroot : disk.find root with
  | error fault =>
    rw [load, readBelow, hroot] at h
    split at h
    · cases h
    · split at h
      · next he => cases he
      · cases h
      · cases h
  | ok base =>
    rw [load_directory hroot] at h
    cases hplace : disk.find (root.join (relative name)) with
    | error fault => simp [hplace, Except.map, served] at h
    | ok place =>
      rw [hplace] at h
      obtain ⟨-, hfile⟩ := served_eq_some.mp h
      rw [(stands_of_find hplace).at_names] at hfile
      exact ⟨place, rfl, Option.some.inj hfile⟩

private theorem fileName?_of_find {place : Place} {content : ByteArray}
    (h : disk.find (root.join (relative name)) = .ok place)
    (hfile : disk.node place = .file content) :
    ∃ file, (names place).getLast? = some file ∧ (⟨name⟩ : Path).fileName? = some file := by
  have hlast := (Path.getLast?_rawParts_join root (relative name)).trans
    (getLast?_rawParts_relative name)
  obtain ⟨file, hraw, hnames, hpart, hback⟩ := file_of_find h hfile
  rw [hlast] at hraw
  exact ⟨file, hnames, Path.fileName?_of_last hraw hpart hback⟩

private theorem extension?_of_fileName? {p : Path} {file : String} (h : p.fileName? = some file) :
    p.extension? = (Path.extensionOf file.toList).map String.ofList := by
  rw [Path.extension?, h]
  rfl

private theorem compile_page {d : Dialect} {stem : String} (hstem : stem ≠ "")
    (hname : (⟨name⟩ : Path).fileName? = some (stem ++ ".html")) {escape : Escape}
    (hescape : d.escapes.byExtension.get? ".html" = some escape) {source : String}
    {defaults : Dict Value} {m : Metadata Value} (hm : m.escape = none) {serial : Nat}
    {t : Template} (h : d.compile source name defaults m serial = .ok t) :
    t.metadata.escape = some escape := by
  have hdotted : (stem ++ ".html").toList = stem.toList ++ '.' :: ['h', 't', 'm', 'l'] := by simp
  have hextension : (⟨name⟩ : Path).extension? = some "html" := by
    rw [extension?_of_fileName? hname, hdotted,
      Path.extensionOf_append (by simpa using hstem) (by decide)]
    rfl
  have hchosen : d.escapes.forName name = some escape := by
    rw [EscapeTable.forName, hextension]
    exact hescape
  unfold Dialect.compile at h
  cases hbody : d.assemble source name with
  | error e => simp [hbody, bind, Except.bind] at h
  | ok body =>
    rw [hbody] at h
    cases h
    simp [Dialect.metadata, hm, hchosen]

/-- The names under which a directory serves a file choose the same escape function, in every table:
that of the extension in the file's own name. So no name takes the escaping from a page. -/
theorem aliases_escape_alike {name' text' : String}
    (h : load (.directory disk root) name = .ok (some text))
    (h' : load (.directory disk root) name' = .ok (some text'))
    (hsame : (disk.find (root.join (relative name))).map names =
      (disk.find (root.join (relative name'))).map names) :
    text = text' ∧ (∀ table : EscapeTable, table.forName name = table.forName name') ∧
    ∃ place file, disk.find (root.join (relative name)) = .ok place ∧
      (names place).getLast? = some file ∧
      (⟨name⟩ : Path).extension? = (Path.extensionOf file.toList).map String.ofList ∧
      ∀ stem escape, stem ≠ "" → file = stem ++ ".html" →
        ∀ (d : Dialect) source defaults m serial t,
          d.escapes.byExtension.get? ".html" = some escape → m.escape = none →
          d.compile source name defaults m serial = .ok t → t.metadata.escape = some escape := by
  obtain ⟨place, hplace, hfile⟩ := find_of_load h
  obtain ⟨place', hplace', hfile'⟩ := find_of_load h'
  obtain ⟨file, hnames, hname⟩ := fileName?_of_find hplace hfile
  obtain ⟨file', hnames', hname'⟩ := fileName?_of_find hplace' hfile'
  have hplaces : names place = names place' := by simpa [hplace, hplace', Except.map] using hsame
  have hfiles : file = file' := by
    rw [hplaces, hnames'] at hnames
    exact (Option.some.inj hnames).symm
  subst hfiles
  refine ⟨?_, fun table => ?_, place, file, hplace, hnames, extension?_of_fileName? hname, ?_⟩
  · have hnode := (stands_of_find hplace).at_names
    rw [hplaces, (stands_of_find hplace').at_names, hfile, hfile'] at hnode
    exact String.toByteArray_inj.mp (Node.file.inj (Option.some.inj hnode)).symm
  · rw [EscapeTable.forName, EscapeTable.forName, extension?_of_fileName? hname,
      extension?_of_fileName? hname']
  · rintro stem escape hstem rfl d source defaults m serial t hescape hm hcompile
    exact compile_page hstem hname hescape hm hcompile

/-- A detour, and the way from the root of the tree behind a slash. -/
theorem aliases_escape_alike_detour :
    let srv : Node := .dir [("x.txt", .dir []), ("a.html", .file "A".toUTF8)]
    let disk : Disk := ⟨.dir [("srv", srv)], ["srv"]⟩
    let found := fun name => (disk.find ((⟨"."⟩ : Path).join (relative name))).map names
    load (.directory disk ⟨"."⟩) "x.txt/./../a.html" = .ok (some "A") ∧
    load (.directory disk ⟨"."⟩) "//srv/a.html" = .ok (some "A") ∧
    found "x.txt/./../a.html" = found "//srv/a.html" ∧
    ∀ table : EscapeTable, table.forName "x.txt/./../a.html" = table.forName "//srv/a.html" := by
  intro srv disk found
  let place : Place := [("a.html", .file "A".toUTF8), ("srv", srv)]
  have hdot : (⟨"."⟩ : Path).isAbsolute = false := by decide +kernel
  have habs : (⟨"/srv/a.html"⟩ : Path).isAbsolute = true := by decide +kernel
  have hplain : (⟨"x.txt/./../a.html"⟩ : Path).isAbsolute = false := by decide +kernel
  have hroot : disk.find ⟨"."⟩ = .ok place.tail := by
    rw [find_eq _ (by decide), origin, onward, hdot]
    rfl
  have hdetour : disk.find ((⟨"."⟩ : Path).join (relative "x.txt/./../a.html")) = .ok place := by
    rw [relative_of_not_absolute hplain, find_join hroot hplain]
    rfl
  have hslash : relative "//srv/a.html" = ⟨"/srv/a.html"⟩ := relative_slash "/srv/a.html"
  have hfar : disk.find ((⟨"."⟩ : Path).join (relative "//srv/a.html")) = .ok place := by
    have hjoin : (⟨"."⟩ : Path).join ⟨"/srv/a.html"⟩ = ⟨"/srv/a.html"⟩ := by
      simp only [Path.join, habs, Bool.true_or, if_true]
    rw [hslash, hjoin, find_eq _ (by decide), origin, onward, habs]
    rfl
  have hdir : disk.node place.tail = .dir srv.entries := rfl
  have hload := fun name h => (load_eq_some hroot hdir name "A").mpr
    ⟨place, ["a.html"], h, by simp, rfl, rfl⟩
  have hsame : found "x.txt/./../a.html" = found "//srv/a.html" := by
    simp only [found, hdetour, hfar]
  have halike := aliases_escape_alike (hload _ hdetour) (hload _ hfar) hsame
  exact ⟨hload _ hdetour, hload _ hfar, hsame, halike.2.1⟩

end Source

end Stencil
