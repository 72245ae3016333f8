import Stencil.Proofs.Disk.Listing

/-!
# Patterns for everything below a directory

A directory that is written without the signs of patterns stands for itself in one, and the pattern
for everything below it finds just what is below.
-/

namespace Stencil

namespace Path

private theorem mem_of_mem_split {cs part : List Char} {c : Char} (hpart : part ∈ cs.splitOn '/')
    (hc : c ∈ part) : c ∈ cs ∧ c ≠ '/' := by
  induction cs generalizing part with
  | nil =>
    obtain rfl := List.mem_singleton.mp hpart
    cases hc
  | cons d cs ih =>
    by_cases hd : d = '/'
    · subst hd
      rcases List.mem_cons.mp hpart with rfl | hpart
      · cases hc
      · obtain ⟨hmem, hslash⟩ := ih hpart hc
        exact ⟨List.mem_cons_of_mem _ hmem, hslash⟩
    · have hcons : (d :: cs).splitOn '/' = (cs.splitOn '/').modifyHead (d :: ·) := by
        simp [List.splitOn_cons_eq_if_modifyHead, hd]
      cases hrest : cs.splitOn '/' with
      | nil => exact absurd hrest (List.splitOn_ne_nil '/' cs)
      | cons first rest =>
        rw [hrest] at ih
        rw [hcons, hrest, List.modifyHead_cons] at hpart
        rcases List.mem_cons.mp hpart with rfl | hpart
        · rcases List.mem_cons.mp hc with rfl | hc
          · exact ⟨List.mem_cons_self, hd⟩
          · obtain ⟨hmem, hslash⟩ := ih List.mem_cons_self hc
            exact ⟨List.mem_cons_of_mem _ hmem, hslash⟩
        · obtain ⟨hmem, hslash⟩ := ih (List.mem_cons_of_mem _ hpart) hc
          exact ⟨List.mem_cons_of_mem _ hmem, hslash⟩

private theorem mem_of_mem_rawParts {path : Path} {part : String} {c : Char}
    (hpart : part ∈ path.rawParts) (hc : c ∈ part.toList) : c ∈ path.text.toList ∧ c ≠ '/' := by
  obtain ⟨cs, hcs, rfl⟩ := List.mem_map.mp hpart
  rw [String.toList_ofList] at hc
  exact mem_of_mem_split hcs hc

theorem slash_rawParts (path : Path) : ∀ part ∈ path.rawParts, '/' ∉ part.toList :=
  fun _ hpart hslash => (mem_of_mem_rawParts hpart hslash).2 rfl

private theorem text_join_ne_dot {path : Path} {part : String} (hslash : '/' ∉ part.toList)
    (htext : path.text ≠ "") : (path.join ⟨part⟩).text ≠ "." := by
  intro heq
  obtain ⟨before, hne, -, hall⟩ := rawParts_join htext (isAbsolute_part hslash)
  obtain ⟨first, rest, rfl⟩ := List.exists_cons_of_ne_nil hne
  rw [rawParts, heq, rawParts_part hslash] at hall
  simp [List.splitOn_cons_eq_if_modifyHead] at hall

private theorem text_down_ne_dot {path : Path} {names : List String} (htext : path.text ≠ "")
    (hdot : path.text ≠ ".") (hslash : ∀ name ∈ names, '/' ∉ name.toList) :
    (path.down names).text ≠ "." := by
  induction names generalizing path with
  | nil => exact hdot
  | cons name names ih =>
    obtain ⟨hname, hrest⟩ := List.forall_mem_cons.mp hslash
    exact ih (text_join_ne htext) (text_join_ne_dot hname htext) hrest

theorem rawParts_of_isAbsolute {path : Path} (h : path.isAbsolute = true) :
    path.rawParts = "" :: path.rawParts.tail := by
  obtain ⟨cs, hcs⟩ := (isAbsolute_iff path).mp h
  rw [rawParts, hcs]
  rfl

theorem rawParts_relative {path : Path} (htext : path.text ≠ "") (h : path.isAbsolute = false) :
    ∃ first rest, path.rawParts = first :: rest ∧ first ≠ "" := by
  have hne : path.text.toList ≠ [] := by simpa using htext
  obtain ⟨c, cs, hcs⟩ := List.exists_cons_of_ne_nil hne
  have hc : c ≠ '/' := by
    rintro rfl
    rw [(isAbsolute_iff path).mpr ⟨cs, hcs⟩] at h
    cases h
  cases hrest : cs.splitOn '/' with
  | nil => exact absurd hrest (List.splitOn_ne_nil '/' cs)
  | cons first rest =>
    refine ⟨String.ofList (c :: first), rest.map String.ofList, ?_, ?_⟩
    · rw [rawParts, hcs]
      simp [List.splitOn_cons_eq_if_modifyHead, hc, hrest]
    · intro heq
      have hlist := congrArg String.toList heq
      rw [String.toList_ofList] at hlist
      cases hlist

private theorem lead_plain {path : Path} (h : path.isAbsolute = false)
    (hdot : path.rawParts.head? ≠ some ".") : path.lead = [] := by
  rw [lead, h, if_neg Bool.false_ne_true, if_neg hdot]

end Path

namespace Glob

def Plain (cs : List Char) : Prop :=
  ∀ c ∈ cs, c ≠ '?' ∧ c ≠ '*' ∧ c ≠ '['

private def literally (cs : List Char) : List Element :=
  cs.map .char

private theorem elementsFrom_plain {cs : List Char} (h : Plain cs) (rest : List Char) (place : Nat)
    (atPart : Bool) : ∃ atPart', elementsFrom place 0 atPart (cs ++ rest) =
      (elementsFrom (place + cs.length) 0 atPart' rest).map (literally cs ++ ·) := by
  induction cs generalizing place atPart with
  | nil =>
    refine ⟨atPart, ?_⟩
    rw [List.nil_append, List.length_nil, Nat.add_zero]
    cases elementsFrom place 0 atPart rest <;> rfl
  | cons c cs ih =>
    obtain ⟨⟨hany, hstar, hclass⟩, hrest⟩ := List.forall_mem_cons.mp h
    obtain ⟨atPart', hcs⟩ := ih hrest (place + 1) (c = '/')
    refine ⟨atPart', ?_⟩
    rw [List.cons_append, elementsFrom, if_neg hany, if_neg hstar, if_neg hclass, hcs,
      List.length_cons, Nat.add_right_comm, Nat.add_assoc]
    cases elementsFrom (place + (cs.length + 1)) 0 atPart' rest <;> rfl

private theorem elements_plain {s : String} (h : Plain s.toList) :
    elements s = .ok (literally s.toList) := by
  obtain ⟨atPart, hall⟩ := elementsFrom_plain h [] 0 true
  rw [List.append_nil] at hall
  rw [elements, hall, elementsFrom]
  exact congrArg Except.ok (List.append_nil _)

private theorem mapM_elements_plain {names : List String} (h : ∀ name ∈ names, Plain name.toList) :
    names.mapM elements = .ok (names.map fun name => literally name.toList) := by
  induction names with
  | nil => rfl
  | cons name names ih =>
    obtain ⟨hname, hrest⟩ := List.forall_mem_cons.mp h
    rw [List.mapM_cons, elements_plain hname, ih hrest]
    rfl

private theorem plain?_literally (s : String) : plain? (literally s.toList) = some s := by
  have hall : ∀ cs : List Char, plain? (literally cs) = some (String.ofList cs) := by
    intro cs
    induction cs with
    | nil => rfl
    | cons c cs ih =>
      obtain ⟨found, hfound, hcs⟩ := Option.map_eq_some_iff.mp ih
      obtain rfl : found = cs := String.ofList_injective hcs
      have hcons : literally (c :: found) = .char c :: literally found := rfl
      rw [plain?, hcons, List.mapM_cons, hfound]
      rfl
  rw [hall, String.ofList_toList]

private theorem nameMatches_anyRun (cs : List Char) : nameMatches [.anyRun] cs = true := by
  rw [nameMatches]
  induction cs with
  | nil => rfl
  | cons c cs ih => rw [nameMatches.anywhere, ih, Bool.or_true]

def everything (dir : Path) : String :=
  dir.text ++ "/**/*"

private theorem parts_everything (cs : List Char) :
    parts (cs ++ "/**/*".toList) = (cs.splitOn '/').map String.ofList ++ ["**", "*"] := by
  have hsplit : (cs ++ "/**/*".toList).splitOn '/' = cs.splitOn '/' ++ [['*', '*'], ['*']] :=
    List.splitOn_append_cons_self cs ['*', '*', '/', '*']
  rw [parts, hsplit]
  simp

section Expand

variable {disk : Disk} {path : Path} {q : Place} (hq : disk.find path = .ok q)
include hq

private theorem expand_name {name : String} {parts : List (List Element)} (k : Nat)
    (hnext : disk.find (child path name) = disk.enter q name) (hparts : parts ≠ []) :
    expand disk (k + 1) (literally name.toList :: parts) path =
      match disk.enter q name with
      | .ok _ => expand disk k parts (child path name)
      | .error _ => [] := by
  have hempty : parts.isEmpty = false := by simpa using hparts
  have hfound : (if name = "." ∨ name = ".." then (disk.dir? path).isSome
      else disk.pathExists (child path name)) = (disk.enter q name).isOk := by
    split
    · next hspecial =>
      rw [Disk.dir?, hq]
      unfold Disk.enter
      dsimp only
      cases disk.node q with
      | file content => rfl
      | dir entries => rcases hspecial with rfl | rfl <;> rfl
    · rw [Disk.pathExists, hnext]
      cases disk.enter q name <;> rfl
  rw [expand, plain?_literally]
  dsimp only
  rw [hfound, hempty]
  cases disk.enter q name <;> rfl

end Expand

private theorem expand_names {disk : Disk} {path : Path} {q : Place} {names : List String}
    {parts : List (List Element)} (k : Nat) (hq : disk.find path = .ok q) (hdot : path.text ≠ ".")
    (hslash : ∀ name ∈ names, '/' ∉ name.toList) (hparts : parts ≠ []) :
    expand disk (names.length + k) (names.map (fun name => literally name.toList) ++ parts) path =
      match names.foldlM disk.enter q with
      | .ok _ => expand disk k parts (path.down names)
      | .error _ => [] := by
  induction names generalizing path q with
  | nil =>
    rw [List.length_nil, Nat.zero_add]
    rfl
  | cons name names ih =>
    obtain ⟨hname, hrest⟩ := List.forall_mem_cons.mp hslash
    have hchild : child path name = path.join ⟨name⟩ := if_neg hdot
    have hnext : disk.find (path.join ⟨name⟩) = disk.enter q name := by
      rw [Disk.find_join hq (Path.isAbsolute_part hname), Path.rawParts_part hname,
        List.foldlM_cons]
      cases disk.enter q name <;> rfl
    have hdot' := Path.text_join_ne_dot hname (Disk.text_ne_of_find hq)
    rw [List.length_cons, Nat.add_right_comm, List.map_cons, List.cons_append,
      expand_name hq _ (by rw [hchild, hnext]) (by simp [hparts]), hchild, List.foldlM_cons]
    cases henter : disk.enter q name with
    | error fault => rfl
    | ok p => exact ih (hnext.trans henter) hdot' hrest

/-- The parts for any depth and any name lead to everything below a directory. -/
private theorem expand_everything {disk : Disk} {path : Path} {q : Place} (k : Nat)
    (hq : disk.find path = .ok q) (hdot : path.text ≠ ".") :
    expand disk (k + 1) [[.anyDepth], [.anyRun]] path =
      match disk.node q with
      | .dir entries => (below path entries).map (·.1)
      | .file _ => [] := by
  have hdepth : plain? [.anyDepth] = none := rfl
  have hparts : dropDepths [[Element.anyRun]] = [[Element.anyRun]] := rfl
  rw [expand, hdepth]
  dsimp only
  rw [Disk.dir?, hq]
  dsimp only
  cases disk.node q with
  | file content => rfl
  | dir entries =>
    dsimp only
    have hcontains : [Element.anyDepth].contains .anyDepth = true := rfl
    rw [if_pos hcontains, if_neg hdot, hparts, List.map_eq_flatMap]
    congr 1
    funext x
    dsimp only
    rw [nameMatches_anyRun]
    rfl

/-- How a directory has to be written to stand for itself in a pattern. A dot in front would be left
out of the paths that are found. -/
structure Literal (dir : Path) : Prop where
  nonempty : dir.text ≠ ""
  plain : Plain dir.text.toList
  undotted : dir.rawParts.head? ≠ some "."

instance : DecidablePred Plain :=
  List.decidableBAll fun c => c ≠ '?' ∧ c ≠ '*' ∧ c ≠ '['

instance : DecidablePred Literal := fun dir =>
  decidable_of_iff (dir.text ≠ "" ∧ Plain dir.text.toList ∧ dir.rawParts.head? ≠ some ".")
    ⟨fun ⟨hne, hplain, hdot⟩ => ⟨hne, hplain, hdot⟩, fun h => ⟨h.nonempty, h.plain, h.undotted⟩⟩

end Glob

structure Disk.Proper (disk : Disk) : Prop where
  proper : disk.root.Proper
  root : ∃ entries, disk.root = .dir entries
  current : ∃ q entries, disk.current.foldlM disk.enter [] = .ok q ∧ disk.node q = .dir entries

namespace Glob

private theorem plain_rawParts {dir : Path} (h : Plain dir.text.toList) :
    ∀ part ∈ dir.rawParts, Plain part.toList := fun _ hpart c hc =>
  h c (Path.mem_of_mem_rawParts hpart hc).1

private theorem elements_everything {dir : Path} (h : Plain dir.text.toList) :
    ∃ es, elements (everything dir) = .ok es := by
  have hend : ∀ place atPart, elementsFrom place 0 atPart "/**/*".toList =
      .ok [.char '/', .anyDepth, .anyRun] := by
    intro place atPart
    simp [elementsFrom, Except.map]
  obtain ⟨atPart, hall⟩ := elementsFrom_plain h "/**/*".toList 0 true
  rw [hend] at hall
  rw [elements, everything, String.toList_append, hall]
  exact ⟨_, rfl⟩

private theorem isAbsolute_everything {dir : Path} (h : dir.text ≠ "") :
    (everything dir).startsWith "/" = dir.isAbsolute := by
  have hne : dir.text.toList ≠ [] := by simpa using h
  obtain ⟨c, cs, hcs⟩ := List.exists_cons_of_ne_nil hne
  have hsame : (⟨everything dir⟩ : Path).isAbsolute = dir.isAbsolute := by
    rw [Bool.eq_iff_iff, Path.isAbsolute_iff, Path.isAbsolute_iff, everything,
      String.toList_append, hcs]
    simp
  exact hsame

private theorem find_everything {disk : Disk} {dir : Path} (h : Literal dir) :
    find disk (everything dir) = .ok (expand disk ((Disk.onward dir).length + 3)
      ((Disk.onward dir).map (fun name => literally name.toList) ++ [[.anyDepth], [.anyRun]])
      ⟨if dir.isAbsolute then "/" else "."⟩) := by
  obtain ⟨es, hes⟩ := elements_everything h.plain
  have honward : parts (if dir.isAbsolute then (everything dir).toList.tail
      else (everything dir).toList) = Disk.onward dir ++ ["**", "*"] := by
    rw [everything, String.toList_append, Disk.onward]
    by_cases habs : dir.isAbsolute = true
    · obtain ⟨cs, hcs⟩ := (Path.isAbsolute_iff dir).mp habs
      rw [if_pos habs, if_pos habs, hcs, List.cons_append, List.tail_cons, parts_everything,
        Path.rawParts, hcs]
      rfl
    · rw [if_neg habs, if_neg habs, parts_everything, Path.rawParts]
  have hplain : ∀ name ∈ Disk.onward dir, Plain name.toList := by
    intro name hname
    refine plain_rawParts h.plain name ?_
    unfold Disk.onward at hname
    split at hname
    · exact List.mem_of_mem_tail hname
    · exact hname
  have hparts : (Disk.onward dir ++ ["**", "*"]).mapM elements =
      .ok ((Disk.onward dir).map (fun name => literally name.toList) ++
        [[.anyDepth], [.anyRun]]) := by
    rw [List.mapM_append, mapM_elements_plain hplain]
    rfl
  rw [find, hes, isAbsolute_everything h.nonempty]
  change (parts _).mapM elements >>= _ = _
  rw [honward, hparts]
  change Except.ok _ = _
  rw [List.length_append, List.length_map]
  rfl

/-- A path under which a directory is found, written so that paths below it are behind it. -/
structure Leads (disk : Disk) (dir path : Path) (q : Place) : Prop where
  found : disk.find path = .ok q
  undotted : path.text ≠ "."
  components : path.components = dir.components

/-- Paths to everything below a directory; there are none if there is no such directory. -/
inductive Lists (disk : Disk) (dir : Path) : List Path → Prop where
  | directory {path : Path} {q : Place} {entries : List (String × Node)} :
      disk.find dir = .ok q → disk.node q = .dir entries → Leads disk dir path q →
      Lists disk dir ((below path entries).map (·.1))
  | nothing : (∀ q entries, disk.find dir = .ok q → disk.node q ≠ .dir entries) →
      Lists disk dir []

private theorem expand_lists {disk : Disk} {dir path : Path} {q : Place} {names : List String}
    (hq : disk.find path = .ok q) (hdot : path.text ≠ ".")
    (hslash : ∀ name ∈ names, '/' ∉ name.toList)
    (hdir : disk.find dir = names.foldlM disk.enter q)
    (hcomponents : path.components ++ names.filter Path.isPart = dir.components) :
    Lists disk dir (expand disk (names.length + 3)
      (names.map (fun name => literally name.toList) ++ [[.anyDepth], [.anyRun]]) path) := by
  rw [expand_names 3 hq hdot hslash (by simp)]
  cases hwalk : names.foldlM disk.enter q with
  | error fault =>
    refine .nothing fun r entries hr => ?_
    rw [hdir, hwalk] at hr
    cases hr
  | ok r =>
    have hfound := Disk.find_down hslash hq hwalk
    have htext := Disk.text_ne_of_find hq
    have hundotted := Path.text_down_ne_dot htext hdot hslash
    rw [hwalk] at hdir
    dsimp only
    rw [expand_everything 2 hfound hundotted]
    cases hnode : disk.node r with
    | file content =>
      refine .nothing fun r' entries hr hdir' => ?_
      rw [hdir] at hr
      cases hr
      rw [hnode] at hdir'
      cases hdir'
    | dir entries =>
      refine .directory hdir hnode ⟨hfound, hundotted, ?_⟩
      rw [Path.components_down htext hslash, hcomponents]

section Start

variable {disk : Disk} {dir : Path} (hd : disk.Proper)
include hd

private theorem find_root : disk.find ⟨"/"⟩ = .ok [] := by
  obtain ⟨entries, hroot⟩ := hd.root
  have hslash : (⟨"/"⟩ : Path).isAbsolute = true := (Path.isAbsolute_iff _).mpr ⟨[], rfl⟩
  rw [Disk.find_absolute hslash]
  simp [Path.rawParts, List.splitOn_cons_eq_if_modifyHead, Disk.enter, Disk.node, hroot,
    Path.isPart, pure, Except.pure]
  rfl

private theorem find_current :
    ∃ c, disk.find ⟨"."⟩ = .ok c ∧ disk.current.foldlM disk.enter [] = .ok c := by
  obtain ⟨c, entries, hcurrent, hnode⟩ := hd.current
  have hparts : (⟨"."⟩ : Path).rawParts = ["."] := Path.rawParts_part (by decide)
  have habs : (⟨"."⟩ : Path).isAbsolute = false := Path.isAbsolute_part (by decide)
  refine ⟨c, ?_, hcurrent⟩
  rw [Disk.find_eq disk (by decide), Disk.origin, Disk.onward, habs, hparts]
  simp [hcurrent, Except.bind, Disk.enter, hnode, Path.isPart, pure, Except.pure]
  rfl

private theorem lists_absolute (habs : dir.isAbsolute = true) :
    Lists disk dir (expand disk ((Disk.onward dir).length + 3)
      ((Disk.onward dir).map (fun name => literally name.toList) ++ [[.anyDepth], [.anyRun]])
      ⟨"/"⟩) := by
  have hslash : (⟨"/"⟩ : Path).isAbsolute = true := (Path.isAbsolute_iff _).mpr ⟨[], rfl⟩
  have hempty : (⟨"/"⟩ : Path).rawParts = ["", ""] := by
    simp [Path.rawParts, List.splitOn_cons_eq_if_modifyHead]
  have honward : Disk.onward dir = dir.rawParts.tail := if_pos habs
  rw [honward]
  refine expand_lists (find_root hd) (by decide) ?_ (Disk.find_absolute habs) ?_
  · exact fun name hname => dir.slash_rawParts name (List.mem_of_mem_tail hname)
  · rw [Path.components, Path.components, Path.lead, Path.lead, if_pos hslash, if_pos habs,
      Path.parts, Path.parts, Path.rawParts_of_isAbsolute habs]
    simp [hempty, Path.isPart]

variable (h : Literal dir)
include h

private theorem lists_relative (habs : dir.isAbsolute = false) :
    Lists disk dir (expand disk ((Disk.onward dir).length + 3)
      ((Disk.onward dir).map (fun name => literally name.toList) ++ [[.anyDepth], [.anyRun]])
      ⟨"."⟩) := by
  obtain ⟨c, hstart, hcurrent⟩ := find_current hd
  obtain ⟨first, rest, hraw, hfirst⟩ := Path.rawParts_relative h.nonempty habs
  have honward : Disk.onward dir = first :: rest := by rw [Disk.onward, habs, ← hraw]; rfl
  have hdir : disk.find dir = (first :: rest).foldlM disk.enter c := by
    rw [Disk.find_eq disk h.nonempty, Disk.origin, habs, honward]
    exact congrArg (Except.bind · _) hcurrent
  have hslash := dir.slash_rawParts
  rw [hraw] at hslash
  obtain ⟨hname, hrest⟩ := List.forall_mem_cons.mp hslash
  have hdot : first ≠ "." := by
    rintro rfl
    exact h.undotted (by rw [hraw]; rfl)
  have hchild : child ⟨"."⟩ first = ⟨first⟩ := if_pos rfl
  have hnext : disk.find ⟨first⟩ = disk.enter c first := by
    rw [Disk.find_eq disk hfirst, Disk.origin, Disk.onward, Path.isAbsolute_part hname,
      Path.rawParts_part hname]
    simp [hcurrent, Except.bind]
  rw [honward, List.length_cons, Nat.add_right_comm, List.map_cons, List.cons_append,
    expand_name hstart _ hnext (by simp), hchild]
  rw [List.foldlM_cons] at hdir
  cases henter : disk.enter c first with
  | error fault =>
    refine .nothing fun r entries hr => ?_
    rw [hdir, henter] at hr
    cases hr
  | ok q =>
    rw [henter] at hdir hnext
    refine expand_lists hnext hdot hrest hdir ?_
    have habs' := Path.isAbsolute_part hname
    have hraw' := Path.rawParts_part hname
    rw [Path.components, Path.components, Path.lead_plain habs' (by simpa [hraw'] using hdot),
      Path.lead_plain habs h.undotted, Path.parts, Path.parts, hraw, hraw', List.nil_append,
      List.nil_append, ← List.filter_append]
    rfl

/-- The pattern for everything below a directory leads to just that. -/
theorem find_lists : ∃ paths, find disk (everything dir) = .ok paths ∧ Lists disk dir paths := by
  refine ⟨_, find_everything h, ?_⟩
  cases habs : dir.isAbsolute with
  | true => exact lists_absolute hd habs
  | false => exact lists_relative hd h habs

end Start

end Glob

end Stencil
