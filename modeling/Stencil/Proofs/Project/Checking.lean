import Stencil.Proofs.Disk.Below
import Stencil.Proofs.Loader.Failure
import Stencil.Proofs.Loader.Transparency
import Stencil.Proofs.Project.Discovery

/-!
# Checking the templates of a project

What is reported of a template does not depend on the templates that were checked before it, and of
a template that was found it is what compiling the first file of its name gives.
-/

namespace Stencil

namespace Loader

def verdict (l : Loader) (name : String) : String × Option TemplateError :=
  match (l.load name).1 with
  | .ok _ => (name, none)
  | .error e => (name, some e)

private theorem verdict_eq_error {l : Loader} {name : String} {e : TemplateError} :
    (l.verdict name).2 = some e ↔ (l.load name).1 = .error e := by
  unfold verdict
  cases (l.load name).1 <;> simp

private theorem Agrees.verdict {l m : Loader} (h : l.Agrees m) (name : String) :
    l.verdict name = m.verdict name := by
  obtain ⟨he, -⟩ := h.load name
  unfold Loader.verdict
  cases hl : (l.load name).1 with
  | ok t =>
    cases hm : (m.load name).1 with
    | ok u => rfl
    | error f =>
      rw [hl, hm] at he
      cases he
  | error e =>
    cases hm : (m.load name).1 with
    | ok u =>
      rw [hl, hm] at he
      cases he
    | error f =>
      rw [hl, hm] at he
      cases he
      rfl

private theorem Agrees.loaded {l m : Loader} (h : l.Agrees m) (name : String) :
    (l.load name).2.Agrees m := by
  obtain ⟨-, hmatches, hfaithful⟩ := load_spec h.left name
  exact ⟨hmatches.trans h.alike, hfaithful, h.right⟩

private theorem loadFresh_failed {l : Loader} {name : String} {e : TemplateError}
    (h : Source.firstText name l.sources = .error e) : (l.loadFresh name).1 = .error e := by
  rw [loadFresh, h]

private theorem compile_eq_error {l : Loader} {source name : String} {defaults : Dict Value}
    {m : Metadata Value} {e : TemplateError} (h : (l.compile source name defaults m).1 = .error e) :
    ∃ message line snippet, e = .compile message name line snippet := by
  unfold compile Dialect.compile Dialect.assemble at h
  cases hbody : Assembly.ofTokens l.dialect.builtins l.dialect.custom (l.dialect.tokens source) with
  | ok body =>
    rw [hbody] at h
    cases h
  | error fault =>
    rw [hbody] at h
    cases h
    exact ⟨_, _, _, rfl⟩

end Loader

namespace Config

private theorem checkEach_cons (l : Loader) (name : String) (names : List String) :
    checkEach l (name :: names) = l.verdict name :: checkEach (l.load name).2 names := by
  rw [checkEach, Loader.verdict]
  rcases l.load name with ⟨_ | _, l'⟩ <;> rfl

/-- The verdicts of one loader are those of a loader that has loaded nothing else. -/
private theorem checkEach_eq_map {l m : Loader} (h : l.Agrees m) (names : List String) :
    checkEach l names = names.map m.verdict := by
  induction names generalizing l with
  | nil => rfl
  | cons name names ih =>
    rw [checkEach_cons, h.verdict, ih (h.loaded name), List.map_cons]

private theorem loader_agrees (c : Config) (disk : Disk) :
    (c.loader disk).Agrees (c.loader disk) := by
  have hfaithful : (c.loader disk).Faithful := by
    intro name t ht
    unfold loader at ht
    cases hcached : c.cached <;> simp only [hcached] at ht
    · exact ht.elim
    · exact (Cache.not_holds_empty _ _ _ ht).elim
  exact ⟨⟨rfl, rfl, rfl⟩, hfaithful, hfaithful⟩

private theorem loader_load (c : Config) (disk : Disk) (name : String) :
    (c.loader disk).load name = (c.loader disk).loadFresh name := by
  apply Loader.load_missed
  unfold loader
  cases c.cached <;> rfl

end Config

def Source.textOf (content : ByteArray) : Except TemplateError String :=
  (Disk.decode content).mapError fun fault => .io fault.message

/-- A file that is there is no text or it does not compile, if anything is wrong with it. -/
private theorem Loader.compile_text_eq_error {l : Loader} {content : ByteArray} {name : String}
    {e : TemplateError} (h : ((Source.textOf content).bind fun text =>
      (l.compile text name [] (.named "")).1) = .error e) :
    (∃ message, e = .io message) ∨
      ∃ message line snippet, e = .compile message name line snippet := by
  unfold Source.textOf at h
  cases hdecode : Disk.decode content with
  | ok text =>
    rw [hdecode] at h
    exact .inr (compile_eq_error h)
  | error fault =>
    rw [hdecode] at h
    cases h
    exact .inl ⟨_, rfl⟩

private theorem Disk.keeps_iff {disk : Disk} (hd : disk.Proper) {dir : Path} {name : String}
    (hname : (⟨name⟩ : Path).Descends) {content : ByteArray} : disk.Keeps dir name content ↔
      ∃ q, disk.find dir = .ok q ∧
        (disk.node q).at? (⟨name⟩ : Path).rawParts = some (.file content) := by
  constructor
  · rintro ⟨q, below, hq, hne, hat, rfl⟩
    obtain ⟨-, hnames⟩ := (hd.found hq).at? hat
    rw [Source.rawParts_names hne hnames]
    exact ⟨q, hq, hat⟩
  · rintro ⟨q, hq, hat⟩
    exact ⟨q, _, hq, Path.rawParts_ne_nil _, hat, (Path.intercalate_rawParts ⟨name⟩).symm⟩

section Serving

variable {disk : Disk} (hd : disk.Proper) {dir : Path} (hdir : dir.text ≠ "") {name : String}
  (hname : (⟨name⟩ : Path).Descends)
include hd hdir hname

private theorem Source.load_descending :
    (∃ content, disk.Keeps dir name content ∧
      load (.directory disk dir) name = (textOf content).map some) ∨
    ¬ disk.Listed dir name ∧ load (.directory disk dir) name = .ok none := by
  have hplain := relative_of_not_absolute hname.isAbsolute
  cases hplace : disk.find (dir.join ⟨name⟩) with
  | error fault =>
    refine .inr ⟨?_, by rw [load, readBelow, hplain, hplace]⟩
    rintro ⟨content, hkeeps⟩
    obtain ⟨q, hq, hat⟩ := (Disk.keeps_iff hd hname).mp hkeeps
    have hstands := Disk.stands_of_find hq
    obtain ⟨r, hwalk, -, -⟩ := Disk.walk_names hstands hname (by
      rw [Node.at?_append, hstands.at_names]
      exact hat)
    rw [Disk.find_join hq hname.isAbsolute, hwalk] at hplace
    cases hplace
  | ok place =>
    have hparts := Path.parts_join hdir hname.isAbsolute
    rw [hname.parts] at hparts
    obtain ⟨q, hq, hwalk⟩ := Disk.find_above hdir hplace
      (Path.isAbsolute_join hdir hname.isAbsolute) hparts (Path.rawParts_ne_nil _)
    obtain ⟨hat, hnames⟩ := Disk.walk_below hname hwalk
    have hload := load_directory hq name
    rw [hplain, hplace, Except.map, hnames, served, Node.at?_append,
      (Disk.stands_of_find hq).at_names, Option.bind_some, hat] at hload
    cases hnode : disk.node place with
    | file content =>
      rw [hnode] at hat hload
      refine .inl ⟨content, (Disk.keeps_iff hd hname).mpr ⟨q, hq, hat⟩, ?_⟩
      rw [hload]
      simp only [List.prefix_append, if_true, textOf]
      cases Disk.decode content <;> rfl
    | dir entries =>
      rw [hnode] at hat hload
      refine .inr ⟨?_, hload⟩
      rintro ⟨content, hkeeps⟩
      obtain ⟨q', hq', hat'⟩ := (Disk.keeps_iff hd hname).mp hkeeps
      obtain rfl : q = q' := Except.ok.inj (hq.symm.trans hq')
      rw [hat] at hat'
      cases hat'

end Serving

private theorem Source.firstText_listed {disk : Disk} (hd : disk.Proper) {dirs : List Path}
    (hdirs : ∀ dir ∈ dirs, dir.text ≠ "") {name : String} (hname : (⟨name⟩ : Path).Descends)
    (hlisted : ∃ dir ∈ dirs, disk.Listed dir name) :
    ∃ before dir after content, dirs = before ++ dir :: after ∧
      (∀ other ∈ before, ¬ disk.Listed other name) ∧ disk.Keeps dir name content ∧
      firstText name (dirs.map (.directory disk)) = (textOf content).map some := by
  induction dirs with
  | nil => simp at hlisted
  | cons dir dirs ih =>
    obtain ⟨hdir, hrest⟩ := List.forall_mem_cons.mp hdirs
    rw [List.map_cons, firstText]
    rcases load_descending hd hdir hname with ⟨content, hkeeps, hload⟩ | ⟨hnone, hload⟩
    · refine ⟨[], dir, dirs, content, rfl, by simp, hkeeps, ?_⟩
      rw [hload]
      cases textOf content <;> rfl
    · have hlater : ∃ dir ∈ dirs, disk.Listed dir name := by simpa [hnone] using hlisted
      obtain ⟨before, found, after, content, hsplit, hbefore, hkeeps, hfirst⟩ := ih hrest hlater
      refine ⟨dir :: before, found, after, content, by rw [hsplit, List.cons_append],
        List.forall_mem_cons.mpr ⟨hnone, hbefore⟩, hkeeps, ?_⟩
      rw [hload]
      exact hfirst

namespace Config

variable {disk : Disk}

private theorem listed_of_namesIn {dir : Path} (hdir : dir.text ≠ "") {names : List String}
    (h : namesIn disk dir = .ok names) {name : String} (hmem : name ∈ names)
    (hname : (⟨name⟩ : Path).Descends) : disk.Listed dir name := by
  unfold namesIn at h
  cases hfind : Glob.find disk (dir.text ++ "/**/*") with
  | error fault =>
    rw [hfind] at h
    cases h
  | ok paths =>
    rw [hfind] at h
    cases h
    obtain ⟨path, hpath, hbehind⟩ := List.mem_filterMap.mp hmem
    obtain ⟨-, hfile⟩ := List.mem_filter.mp hpath
    obtain ⟨below, hbelow, rfl⟩ := Option.map_eq_some_iff.mp hbehind
    obtain ⟨habs, hparts⟩ := Path.behind_eq_some hdir hbelow
    have hne : below ≠ [] := by
      rintro rfl
      exact absurd hname (by decide)
    have hslash : ∀ part ∈ below, '/' ∉ part.toList := fun part hpart =>
      path.slash_rawParts part
        (List.mem_filter.mp (hparts ▸ List.mem_append_right _ hpart : part ∈ path.parts)).1
    have hraw := Path.rawParts_intercalate hne hslash
    rw [Path.Descends, hraw] at hname
    obtain ⟨r, content, hr, hcontent⟩ := Disk.isFile_iff.mp hfile
    obtain ⟨q, hq, hwalk⟩ := Disk.find_above hdir hr habs hparts hne
    obtain ⟨hat, -⟩ := Disk.walk_below hname hwalk
    exact ⟨content, q, below, hq, hne, hcontent ▸ hat, rfl⟩

private theorem mem_lists {dirs : List Path} {lists : List (List String)}
    (h : dirs.mapM (namesIn disk) = .ok lists) {name : String} (hmem : name ∈ lists.flatten) :
    ∃ dir ∈ dirs, ∃ names, namesIn disk dir = .ok names ∧ name ∈ names := by
  induction dirs generalizing lists with
  | nil =>
    cases h
    cases hmem
  | cons dir dirs ih =>
    rw [List.mapM_cons] at h
    cases hfirst : namesIn disk dir with
    | error fault =>
      rw [hfirst] at h
      cases h
    | ok first =>
      cases hrest : dirs.mapM (namesIn disk) with
      | error fault =>
        rw [hfirst, hrest] at h
        cases h
      | ok rest =>
        rw [hfirst, hrest] at h
        cases h
        rcases List.mem_append.mp hmem with hname | hname
        · exact ⟨dir, List.mem_cons_self, first, hfirst, hname⟩
        · obtain ⟨other, hother, found⟩ := ih hrest hname
          exact ⟨other, List.mem_cons_of_mem _ hother, found⟩

private theorem listed_of_discover {c : Config} (hdirs : ∀ dir ∈ c.templateDirs, dir.text ≠ "")
    {names : List String} (h : c.discover disk = .ok names) {name : String} (hmem : name ∈ names)
    (hname : (⟨name⟩ : Path).Descends) : ∃ dir ∈ c.templateDirs, disk.Listed dir name := by
  cases hlists : c.templateDirs.mapM (namesIn disk) with
  | error fault =>
    rw [discover, hlists] at h
    cases h
  | ok lists =>
    obtain ⟨found, hfound, hiff⟩ := discover_of_lists hlists
    obtain rfl : names = found := Except.ok.inj (h.symm.trans hfound)
    obtain ⟨dir, hdir, inDir, hin, hmem⟩ := mem_lists hlists ((hiff name).mp hmem)
    exact ⟨dir, hdir, listed_of_namesIn (hdirs dir hdir) hin hmem hname⟩

/-- From directories that are written without the signs of patterns no name leads back up. -/
private theorem descends_of_discover {c : Config} (hd : disk.Proper)
    (h : ∀ dir ∈ c.templateDirs, Glob.Literal dir) {names : List String}
    (hnames : c.discover disk = .ok names) : ∀ name ∈ names, (⟨name⟩ : Path).Descends := by
  obtain ⟨lists, hlists, hmem⟩ := mapM_namesIn hd h
  obtain ⟨found, hfound, hiff⟩ := discover_of_lists hlists
  obtain rfl : names = found := Except.ok.inj (hnames.symm.trans hfound)
  intro name hname
  obtain ⟨dir, -, content, q, below, hq, hne, hat, rfl⟩ := (hmem name).mp ((hiff name).mp hname)
  have hbelow := ((hd.found hq).at? hat).2
  rw [Path.Descends, Source.rawParts_names hne hbelow]
  exact hbelow

/-- Settings that were loaded are relative to a directory, so no path of theirs is empty. -/
theorem templateDirs_ne_of_load {path : Option Path} {c : Config} (h : load disk path = .ok c) :
    ∀ dir ∈ c.templateDirs, dir.text ≠ "" := by
  have hcurrent : disk.currentPath.text ≠ "" := by simp [Disk.currentPath]
  have hbase : c.base.text ≠ "" := by
    unfold load at h
    dsimp only at h
    split at h
    · cases h
      exact hcurrent
    · split at h
      · cases h
      · split at h
        · cases h
        · cases h
          dsimp only
          split
          · exact hcurrent
          · next hparent => simpa using hparent
  intro dir hdir
  obtain ⟨text, -, rfl⟩ := List.mem_map.mp hdir
  exact Path.text_join_ne hbase

/-- A file is the first of its name, and what is read and compiled under the name. -/
structure Found (c : Config) (disk : Disk) (name : String) (content : ByteArray) : Prop where
  first : ∃ before dir after, c.templateDirs = before ++ dir :: after ∧
    (∀ other ∈ before, ¬ disk.Listed other name) ∧ disk.Keeps dir name content
  read : Source.firstText name (c.sources disk) = (Source.textOf content).map some
  compiled : ((c.loader disk).load name).1 = (Source.textOf content).bind fun text =>
    ((c.loader disk).compile text name [] (.named "")).1
  present : ∀ missing, ((c.loader disk).verdict name).2 ≠ some (.notFound missing)
  inside : ∀ message, ((c.loader disk).verdict name).2 ≠ some (.resolution message)

private theorem found_of_listed {c : Config} (hd : disk.Proper)
    (hdirs : ∀ dir ∈ c.templateDirs, dir.text ≠ "") {name : String}
    (hname : (⟨name⟩ : Path).Descends) (hlisted : ∃ dir ∈ c.templateDirs, disk.Listed dir name) :
    ∃ content, c.Found disk name content := by
  obtain ⟨before, dir, after, content, hsplit, hbefore, hkeeps, hfirst⟩ :=
    Source.firstText_listed hd hdirs hname hlisted
  have hcompiled : ((c.loader disk).load name).1 = (Source.textOf content).bind fun text =>
      ((c.loader disk).compile text name [] (.named "")).1 := by
    rw [loader_load]
    cases htext : Source.textOf content with
    | ok text =>
      rw [htext] at hfirst
      exact Loader.loadFresh_found hfirst
    | error e =>
      rw [htext] at hfirst
      exact Loader.loadFresh_failed hfirst
  have herror : ∀ e, ((c.loader disk).verdict name).2 = some e →
      (∃ message, e = .io message) ∨
        ∃ message line snippet, e = .compile message name line snippet := fun e he =>
    Loader.compile_text_eq_error (hcompiled ▸ Loader.verdict_eq_error.mp he)
  refine ⟨content, ⟨before, dir, after, hsplit, hbefore, hkeeps⟩, hfirst, hcompiled, ?_, ?_⟩
  · intro missing he
    rcases herror _ he with ⟨message, h⟩ | ⟨message, line, snippet, h⟩ <;> cases h
  · intro refusal he
    rcases herror _ he with ⟨message, h⟩ | ⟨message, line, snippet, h⟩ <;> cases h

/-- What is reported of a template is what a loader reports that has loaded nothing else, whatever
is cached. A name that was found stands for the first file of its name, if it does not lead back up,
and from directories that are written without the signs of patterns no name does. -/
theorem check_settled (c : Config) (disk : Disk) :
    (∀ names, checkEach (c.loader disk) names = names.map (c.loader disk).verdict) ∧
    (∀ names names' : List String, names.Perm names' →
      (checkEach (c.loader disk) names).Perm (checkEach (c.loader disk) names')) ∧
    (disk.Proper → (∀ dir ∈ c.templateDirs, dir.text ≠ "") →
      ∀ names, c.discover disk = .ok names →
        (∀ name ∈ names, (⟨name⟩ : Path).Descends → ∃ content, c.Found disk name content) ∧
        ((∀ dir ∈ c.templateDirs, Glob.Literal dir) →
          ∀ name ∈ names, (⟨name⟩ : Path).Descends)) := by
  have hmap := checkEach_eq_map (c.loader_agrees disk)
  refine ⟨hmap, fun names names' hperm => ?_, fun hd hdirs names hnames => ⟨?_, ?_⟩⟩
  · rw [hmap, hmap]
    exact hperm.map _
  · intro name hmem hname
    exact found_of_listed hd hdirs hname (listed_of_discover hdirs hnames hmem hname)
  · exact fun hliteral => descends_of_discover hd hliteral hnames

/-- A directory of the name of a template hides no file of that name in a later directory. -/
theorem check_settled_hidden :
    let a : Node := .dir [("x", .dir [("y", .file "Y".toUTF8)])]
    let b : Node := .dir [("x", .file "X".toUTF8)]
    let disk : Disk := ⟨.dir [("srv", .dir [("a", a), ("b", b)])], ["srv"]⟩
    let c : Config := { Config.standard with base := ⟨"/srv"⟩, dirs := ["a", "b"], capacity := 1 }
    (checkEach (c.loader disk) ["x", "x/y", "x"]).Perm
      (checkEach (c.loader disk) ["x", "x", "x/y"]) ∧
    ∃ names, c.discover disk = .ok names ∧ "x" ∈ names ∧ ∃ content, c.Found disk "x" content := by
  intro a b disk c
  have hx : (Node.dir [("y", .file "Y".toUTF8)]).Proper :=
    .dir (by decide) (by decide) (List.forall_mem_cons.mpr ⟨.file _, by simp⟩)
  have ha : a.Proper := .dir (by decide) (by decide) (List.forall_mem_cons.mpr ⟨hx, by simp⟩)
  have hb : b.Proper := .dir (by decide) (by decide) (List.forall_mem_cons.mpr ⟨.file _, by simp⟩)
  have hsrv : (Node.dir [("a", a), ("b", b)]).Proper :=
    .dir (by decide) (by decide)
      (List.forall_mem_cons.mpr ⟨ha, List.forall_mem_cons.mpr ⟨hb, by simp⟩⟩)
  have hdisk : disk.Proper :=
    ⟨.dir (by decide) (by decide) (List.forall_mem_cons.mpr ⟨hsrv, by simp⟩), ⟨_, rfl⟩,
      ⟨_, _, rfl, rfl⟩⟩
  have hlists : c.templateDirs.mapM (namesIn disk) = .ok [["x/y"], ["x"]] :=
    eq_ok_of_toOption (by decide +kernel)
  obtain ⟨names, hnames, hmem⟩ := discover_of_lists hlists
  have hname : "x" ∈ names := (hmem "x").mpr (by decide)
  obtain ⟨-, hperm, hfound⟩ := c.check_settled disk
  obtain ⟨hall, hdescends⟩ := hfound hdisk (by decide +kernel) names hnames
  exact ⟨hperm _ _ (by decide), names, hnames, hname,
    hall "x" hname (hdescends (by decide +kernel) "x" hname)⟩

/-- Parts of a pattern that match the way back up list a file outside, which is then refused. -/
theorem check_settled_outside :
    let inner : Node := .dir [(".?", .dir [("x", .file "X".toUTF8)]), ("m", .file "M".toUTF8)]
    let disk : Disk := ⟨.dir [("srv", .dir [("**", .dir [(".?", inner)])])], ["srv"]⟩
    let c : Config := { Config.standard with base := ⟨"/srv"⟩, dirs := ["**/.?/.?"] }
    ∃ names, c.discover disk = .ok names ∧ "../m" ∈ names ∧
      (c.loader disk).verdict "../m" =
        ("../m", some (.resolution "Path '../m' escapes the template directory")) := by
  intro inner disk c
  have hlists : c.templateDirs.mapM (namesIn disk) = .ok [["x", "../.?/x", "../m"]] :=
    eq_ok_of_toOption (by decide +kernel)
  obtain ⟨names, hnames, hmem⟩ := discover_of_lists hlists
  exact ⟨names, hnames, (hmem "../m").mpr (by decide), by decide +kernel⟩

end Config

end Stencil
