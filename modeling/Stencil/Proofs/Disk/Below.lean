import Stencil.Proofs.Disk.Aliases
import Stencil.Proofs.Disk.Pattern

/-!
# Files below a directory

A path that goes on from a directory leads below it: the directory is found, and the rest of the
path leads on from there. By a name whose parts are names of entries a directory therefore serves
just the file that they lead to, and it never refuses one.
-/

namespace Stencil

namespace Path

/-- Parts that are names of entries, so that a path only goes down. -/
def Descends (p : Path) : Prop :=
  ∀ part ∈ p.rawParts, IsName part

instance : DecidablePred Descends := fun p =>
  inferInstanceAs (Decidable (∀ part ∈ p.rawParts, IsName part))

theorem intercalate_rawParts (p : Path) : "/".intercalate p.rawParts = p.text := by
  have hslash : "/".toList = ['/'] := rfl
  apply String.toList_injective
  simp [rawParts, hslash, List.intercalate_splitOn]

private theorem lead_cases (p : Path) : p.lead = [] ∨ ∃ first, p.lead = [first] := by
  unfold lead
  split
  · exact .inr ⟨_, rfl⟩
  · split
    · exact .inr ⟨_, rfl⟩
    · exact .inl rfl

private theorem not_mem_parts_of_lead {p q : Path} {first : String} (h : p.lead = [first]) :
    first ∉ q.parts := by
  intro hmem
  obtain ⟨hraw, hpart⟩ := List.mem_filter.mp hmem
  unfold lead at h
  split at h
  · obtain rfl := List.singleton_inj.mp h
    exact q.slash_rawParts _ hraw (by decide)
  · split at h
    · obtain rfl := List.singleton_inj.mp h
      exact absurd hpart (by decide)
    · cases h

private theorem isAbsolute_eq_lead (p : Path) : p.isAbsolute = decide (p.lead = ["/"]) := by
  unfold lead
  cases p.isAbsolute with
  | true => rfl
  | false => by_cases hdot : p.rawParts.head? = some "." <;> simp [hdot]

private theorem parts_plain {p : Path} (htext : p.text ≠ "") (hlead : p.lead = []) :
    ∃ first rest, p.parts = first :: rest := by
  have habs : p.isAbsolute = false := by rw [isAbsolute_eq_lead, hlead]; rfl
  obtain ⟨first, rest, hraw, hfirst⟩ := rawParts_relative htext habs
  have hdot : first ≠ "." := by
    rintro rfl
    simp [lead, habs, hraw] at hlead
  have hpart : isPart first = true := by simp [isPart, hfirst, hdot]
  exact ⟨first, rest.filter isPart, by rw [parts, hraw, List.filter_cons_of_pos hpart]⟩

/-- Behind a path that is not empty there are only parts that name something. -/
theorem behind_eq_some {path dir : Path} {names : List String} (htext : dir.text ≠ "")
    (h : path.behind? dir = some names) :
    path.isAbsolute = dir.isAbsolute ∧ path.parts = dir.parts ++ names := by
  unfold behind? at h
  split at h
  · next hprefix =>
    obtain ⟨rest, hrest⟩ := List.isPrefixOf_iff_prefix.mp hprefix
    rw [← hrest, List.drop_left] at h
    cases h
    rw [components, components, List.append_assoc] at hrest
    rw [isAbsolute_eq_lead, isAbsolute_eq_lead]
    -- A lead is no part that names something, so either both paths have it or none has.
    rcases dir.lead_cases with hdir | ⟨first, hdir⟩ <;>
      rcases path.lead_cases with hpath | ⟨other, hpath⟩ <;> rw [hdir, hpath] at hrest
    · exact ⟨by rw [hdir, hpath], hrest.symm⟩
    · obtain ⟨first, after, hparts⟩ := parts_plain htext hdir
      obtain rfl : first = other := (List.cons.inj (hparts ▸ hrest)).1
      exact absurd (hparts ▸ List.mem_cons_self) (not_mem_parts_of_lead (q := dir) hpath)
    · have hmem : first ∈ path.parts := by
        rw [← List.nil_append path.parts, ← hrest]
        exact List.mem_cons_self
      exact absurd hmem (not_mem_parts_of_lead hdir)
    · obtain ⟨rfl, hparts⟩ := List.cons.inj hrest
      exact ⟨by rw [hdir, hpath], hparts.symm⟩
  · cases h

theorem behind_empty (p : Path) : p.behind? ⟨""⟩ = some p.components :=
  rfl

namespace Descends

variable {p : Path} (h : p.Descends)
include h

theorem isAbsolute : p.isAbsolute = false := by
  rw [Bool.eq_false_iff]
  intro habs
  have hempty : IsName "" := h "" (by rw [rawParts_of_isAbsolute habs]; exact List.mem_cons_self)
  exact absurd hempty (by decide)

theorem parts : p.parts = p.rawParts :=
  List.filter_eq_self.mpr fun part hpart => (h part hpart).1

end Descends

end Path

namespace Disk

variable {d : Disk} {p q r : Place} {parts names : List String}

private theorem dir_of_walk {entries : List (String × Node)} (h : parts.foldlM d.enter p = .ok q)
    (hq : d.node q = .dir entries) : ∃ entries, d.node p = .dir entries := by
  cases parts with
  | nil =>
    cases h
    exact ⟨entries, hq⟩
  | cons part parts =>
    obtain ⟨r, henter, -⟩ := walk_cons_eq_ok.mp h
    exact enter_dir henter

/-- A part that names nothing is the directory it is looked for in. -/
private theorem enter_unnamed {part : String} (hpart : ¬ Path.isPart part = true) :
    d.enter p part = .ok q ↔ q = p ∧ ∃ entries, d.node p = .dir entries := by
  unfold enter
  cases d.node p with
  | file content => simp
  | dir entries => simp [hpart, eq_comm]

private theorem walk_named (h : parts.foldlM d.enter p = .ok q) :
    (parts.filter Path.isPart).foldlM d.enter p = .ok q := by
  induction parts generalizing p with
  | nil => exact h
  | cons part parts ih =>
    obtain ⟨r, henter, hrest⟩ := walk_cons_eq_ok.mp h
    by_cases hpart : Path.isPart part = true
    · rw [List.filter_cons_of_pos hpart]
      exact walk_cons_eq_ok.mpr ⟨r, henter, ih hrest⟩
    · obtain ⟨rfl, -⟩ := (enter_unnamed hpart).mp henter
      rw [List.filter_cons_of_neg hpart]
      exact ih hrest

/-- On the way to a directory the parts that name nothing stop no walk. -/
private theorem walk_of_named {entries : List (String × Node)}
    (h : (parts.filter Path.isPart).foldlM d.enter p = .ok q) (hq : d.node q = .dir entries) :
    parts.foldlM d.enter p = .ok q := by
  induction parts generalizing p with
  | nil => exact h
  | cons part parts ih =>
    by_cases hpart : Path.isPart part = true
    · rw [List.filter_cons_of_pos hpart] at h
      obtain ⟨r, henter, hrest⟩ := walk_cons_eq_ok.mp h
      exact walk_cons_eq_ok.mpr ⟨r, henter, ih hrest⟩
    · rw [List.filter_cons_of_neg hpart] at h
      have hstay := (enter_unnamed hpart).mpr ⟨rfl, dir_of_walk h hq⟩
      exact walk_cons_eq_ok.mpr ⟨p, hstay, ih h⟩

private theorem filter_onward (path : Path) : (onward path).filter Path.isPart = path.parts := by
  unfold onward
  split
  · next habs =>
    rw [Path.parts, Path.rawParts_of_isAbsolute habs]
    exact (List.filter_cons_of_neg (by decide)).symm
  · rfl

theorem find_above {dir path : Path} (hdir : dir.text ≠ "") (hr : d.find path = .ok r)
    (habs : path.isAbsolute = dir.isAbsolute) (hparts : path.parts = dir.parts ++ names)
    (hne : names ≠ []) : ∃ q, d.find dir = .ok q ∧ names.foldlM d.enter q = .ok r := by
  have horigin : d.origin path = d.origin dir := by rw [origin, origin, habs]
  rw [find_eq d (text_ne_of_find hr), horigin] at hr
  rw [find_eq d hdir]
  cases ho : d.origin dir with
  | error fault =>
    rw [ho] at hr
    cases hr
  | ok start =>
    rw [ho] at hr
    have hnamed := walk_named hr
    rw [filter_onward, hparts] at hnamed
    obtain ⟨q, hq, hnames⟩ := walk_append_eq_ok.mp hnamed
    obtain ⟨first, rest, rfl⟩ := List.exists_cons_of_ne_nil hne
    obtain ⟨s, henter, -⟩ := walk_cons_eq_ok.mp hnames
    obtain ⟨entries, hnode⟩ := enter_dir henter
    rw [← filter_onward] at hq
    exact ⟨q, walk_of_named hq hnode, hnames⟩

theorem walk_below (hnames : ∀ name ∈ names, Path.IsName name)
    (h : names.foldlM d.enter p = .ok q) :
    (d.node p).at? names = some (d.node q) ∧ Disk.names q = Disk.names p ++ names := by
  induction names generalizing p with
  | nil =>
    cases h
    exact ⟨rfl, (List.append_nil _).symm⟩
  | cons name names ih =>
    obtain ⟨⟨hpart, hback, -⟩, hrest⟩ := List.forall_mem_cons.mp hnames
    obtain ⟨r, henter, hwalk⟩ := walk_cons_eq_ok.mp h
    obtain ⟨hat, hplace⟩ := ih hrest hwalk
    obtain ⟨entries, hdir⟩ := enter_dir henter
    simp only [enter, hdir, hpart, hback, Bool.not_true, Bool.false_eq_true, if_false] at henter
    cases hlookup : entries.lookup name with
    | none =>
      rw [hlookup] at henter
      cases henter
    | some n =>
      rw [hlookup] at henter
      obtain rfl := Except.ok.inj henter
      refine ⟨?_, by rw [hplace, names_cons, List.append_assoc]; rfl⟩
      rw [hdir, Node.at?, hlookup]
      exact hat

end Disk

end Stencil
