import Stencil.Loader
import Stencil.Proofs.Value.Dict

/-! # What a cache holds -/

namespace Stencil

namespace Cache

variable {α : Type}

def Holds (c : Cache α) (name : String) (v : α) : Prop :=
  match c with
  | off => False
  | recent r => (name, v) ∈ r.entries

private theorem holds_of_get? {c : Cache α} {name : String} {v : α} (h : (c.get? name).1 = some v) :
    c.Holds name v := by
  cases c with
  | off => cases h
  | recent r => exact Dict.mem_of_get? h

/-- A use moves an entry to the front and makes up none. -/
private theorem holds_get? {c : Cache α} {key name : String} {v : α}
    (h : (c.get? key).2.Holds name v) : c.Holds name v := by
  cases c with
  | off => exact h
  | recent r =>
    simp only [get?, Recent.touch] at h
    split at h
    · next w hw =>
      rcases List.mem_cons.mp h with hh | hh
      · cases hh
        exact Dict.mem_of_get? hw
      · exact (List.mem_filter.mp hh).1
    · exact h

private theorem holds_set {c : Cache α} {key name : String} {u v : α}
    (h : (c.set key u).Holds name v) :
    (name = key ∧ v = u) ∨ c.Holds name v := by
  cases c with
  | off => exact h.elim
  | recent r =>
    have hm : (name, v) ∈ (key, u) :: Dict.remove key r.entries := by
      simp only [set, Recent.set, Recent.trim] at h
      split at h
      · exact h
      · exact List.mem_of_mem_take h
    rcases List.mem_cons.mp hm with hh | hh
    · cases hh
      exact .inl ⟨rfl, rfl⟩
    · exact .inr (List.mem_filter.mp hh).1

private theorem not_holds_clear (c : Cache α) (name : String) (v : α) : ¬ c.clear.Holds name v := by
  cases c with
  | off => exact id
  | recent r => exact List.not_mem_nil

theorem not_holds_empty (capacity : Nat) (name : String) (v : α) :
    ¬ (recent (.empty capacity) : Cache α).Holds name v :=
  List.not_mem_nil

def Unbounded (c : Cache α) : Prop :=
  ∃ entries, c = .recent ⟨0, entries⟩

theorem has_eq (c : Cache α) (key : String) : c.has key = (c.get? key).1.isSome := by
  cases c <;> rfl

theorem get?_clear (c : Cache α) (key : String) : (c.clear.get? key).1 = none := by
  cases c <;> rfl

namespace Unbounded

variable {c : Cache α}

theorem clear (h : c.Unbounded) : c.clear.Unbounded := by
  obtain ⟨entries, rfl⟩ := h
  exact ⟨[], rfl⟩

theorem set (h : c.Unbounded) (key : String) (v : α) : (c.set key v).Unbounded := by
  obtain ⟨entries, rfl⟩ := h
  exact ⟨_, rfl⟩

theorem get?_set (h : c.Unbounded) (key k : String) (v : α) :
    ((c.set key v).get? k).1 = if key = k then some v else (c.get? k).1 := by
  obtain ⟨entries, rfl⟩ := h
  change Dict.get? k ((key, v) :: Dict.remove key entries) = _
  rw [Dict.get?, Dict.get?_remove]
  split <;> rfl

theorem use (h : c.Unbounded) (key : String) : (c.get? key).2.Unbounded := by
  obtain ⟨entries, rfl⟩ := h
  simp only [Cache.get?, Recent.touch]
  split
  · exact ⟨_, rfl⟩
  · exact ⟨_, rfl⟩

theorem get?_use (h : c.Unbounded) (key k : String) :
    ((c.get? key).2.get? k).1 = (c.get? k).1 := by
  obtain ⟨entries, rfl⟩ := h
  simp only [Cache.get?, Recent.touch]
  split
  · next v hv =>
    change Dict.get? k ((key, v) :: Dict.remove key entries) = Dict.get? k entries
    rw [Dict.get?, Dict.get?_remove]
    split
    · next hk =>
      rw [← hk]
      exact hv.symm
    · rfl
  · rfl

end Unbounded

end Cache

/-- A template without regard to its serial number. -/
def Compiled.unnumbered {α : Type} (t : Compiled α) : Compiled α :=
  { t with serial := 0 }

namespace Dialect

/-- Compiling hands the serial number on and does not look at it. -/
private theorem compile_unnumbered (d : Dialect) (source name : String) (defaults : Dict Value)
    (m : Metadata Value) (serial : Nat) :
    (d.compile source name defaults m serial).map Compiled.unnumbered =
      d.compile source name defaults m 0 := by
  unfold compile
  cases d.assemble source name with
  | error e => rfl
  | ok body => rfl

end Dialect

namespace Loader

def afresh (l : Loader) (name : String) : Except TemplateError Template :=
  match Source.firstText name l.sources with
  | .error e => .error e
  | .ok none => .error (.notFound name)
  | .ok (some text) => l.dialect.compile text name [] (l.attach (.named "")) 0

/-- Every cached template is what the sources give for its name. -/
def Faithful (l : Loader) : Prop :=
  ∀ name t, l.cache.Holds name t → l.afresh name = .ok t.unnumbered

/-- Loaders that differ in their caches and in the serial numbers to come. -/
structure Matches (l m : Loader) : Prop where
  number : l.number = m.number
  dialect : l.dialect = m.dialect
  sources : l.sources = m.sources

theorem Matches.symm {l m : Loader} (h : l.Matches m) : m.Matches l :=
  ⟨h.number.symm, h.dialect.symm, h.sources.symm⟩

theorem Matches.trans {k l m : Loader} (h : k.Matches l) (h' : l.Matches m) : k.Matches m :=
  ⟨h.number.trans h'.number, h.dialect.trans h'.dialect, h.sources.trans h'.sources⟩

theorem Matches.afresh {l m : Loader} (h : l.Matches m) (name : String) :
    l.afresh name = m.afresh name := by
  simp only [Loader.afresh, attach, h.number, h.dialect, h.sources]

private theorem loadFresh_spec {l : Loader} (h : l.Faithful) (name : String) :
    (l.loadFresh name).1.map Compiled.unnumbered = l.afresh name ∧
      (l.loadFresh name).2.Matches l ∧ (l.loadFresh name).2.Faithful := by
  have hs : l.Matches l := ⟨rfl, rfl, rfl⟩
  unfold loadFresh
  cases hf : Source.firstText name l.sources with
  | error e => simp only [afresh, hf]; exact ⟨rfl, hs, h⟩
  | ok text =>
    cases text with
    | none => simp only [afresh, hf]; exact ⟨rfl, hs, h⟩
    | some text =>
      have hc := l.dialect.compile_unnumbered text name [] (l.attach (.named "")) l.nextSerial
      simp only [afresh, compile, hf]
      rw [← hc]
      cases hd : l.dialect.compile text name [] (l.attach (.named "")) l.nextSerial with
      | error e => exact ⟨rfl, hs, h⟩
      | ok t =>
        refine ⟨rfl, ⟨rfl, rfl, rfl⟩, ?_⟩
        intro key u hu
        have hm : (⟨l.number, l.dialect, l.sources, l.cache.set name t, l.nextSerial + 1⟩ :
          Loader).Matches l := ⟨rfl, rfl, rfl⟩
        rw [hm.afresh key]
        rcases Cache.holds_set hu with ⟨rfl, rfl⟩ | hh
        · simp only [afresh, hf]
          rw [← hc, hd]
          rfl
        · exact h key u hh

/-- A load gives what the sources give, from the cache or not, and keeps the cache faithful. -/
theorem load_spec {l : Loader} (h : l.Faithful) (name : String) :
    (l.load name).1.map Compiled.unnumbered = l.afresh name ∧
      (l.load name).2.Matches l ∧ (l.load name).2.Faithful := by
  cases hc : (l.cache.get? name).1 with
  | none =>
    rw [load_missed hc]
    exact loadFresh_spec h name
  | some t =>
    rw [load_cached hc]
    have ht : l.cache.Holds name t := Cache.holds_of_get? hc
    have hm : ({ l with cache := (l.cache.get? name).2 } : Loader).Matches l := ⟨rfl, rfl, rfl⟩
    refine ⟨(h name t ht).symm, hm, ?_⟩
    intro key u hu
    rw [hm.afresh key]
    exact h key u (Cache.holds_get? hu)

theorem faithful_clear (l : Loader) : l.clear.Faithful := by
  intro name t ht
  exact (Cache.not_holds_clear l.cache name t ht).elim

end Loader

end Stencil
