import Stencil.Proofs.Loader.Session

/-!
# Loads that fail

A load that fails leaves a loader as it was, the order in which its cache was used included, and
stands in the way of no later one.
-/

namespace Stencil

private theorem Source.firstText_of_offers {sources : List Source} {name text : String}
    (h : Offers sources name text) : firstText name sources = .ok (some text) := by
  obtain ⟨before, s, after, rfl, hnone, hs⟩ := h
  induction before with
  | nil => rw [List.nil_append, firstText, hs]
  | cons r before ih =>
    obtain ⟨hr, hnone⟩ := List.forall_mem_cons.mp hnone
    rw [List.cons_append, firstText, hr]
    exact ih hnone

inductive Reply where
  | loaded (result : Except TemplateError Template)
  | rendered (outcome : Outcome)
  | compiled (result : Except TemplateError Template)
  | cached (found : Bool)
  | done

namespace Loader

def reply (host : Host) (l : Loader) : Request → Reply
  | .load name => .loaded (l.load name).1
  | .render name params depth => .rendered (l.render host depth name params).1
  | .renderTemplate t params depth => .rendered (t.render host depth params (some l)).1
  | .compile source name defaults m => .compiled (l.compile source name defaults m).1
  | .isCached name => .cached (l.isCached name)
  | .clear => .done
  | .alter _ _ => .done

def replies (host : Host) : Loader → List Request → List Reply
  | _, [] => []
  | l, request :: rest => l.reply host request :: replies host (l.after host request) rest

variable {l : Loader} {name : String}

/-- The first source that has a name has a text for it that compiles, and no source before fails. -/
def Supplies (l : Loader) (name : String) (t : Template) : Prop :=
  ∃ text, Source.Offers l.sources name text ∧ (l.compile text name [] (.named "")).1 = .ok t

theorem loadFresh_found {text : String} (h : Source.firstText name l.sources = .ok (some text)) :
    (l.loadFresh name).1 = (l.compile text name [] (.named "")).1 := by
  rcases hc : l.compile text name [] (.named "") with ⟨_ | t, l'⟩ <;> simp only [loadFresh, h, hc]

private theorem loadFresh_eq_ok {t : Template} :
    (l.loadFresh name).1 = .ok t ↔ l.Supplies name t := by
  constructor
  · intro h
    cases hf : Source.firstText name l.sources with
    | error e => simp [loadFresh, hf] at h
    | ok found =>
      cases found with
      | none => simp [loadFresh, hf] at h
      | some text => exact ⟨text, Source.offers_of_firstText hf, loadFresh_found hf ▸ h⟩
  · rintro ⟨text, hoffers, hcompile⟩
    rw [loadFresh_found (Source.firstText_of_offers hoffers), hcompile]

private theorem load_succeeds_iff : (∃ t, (l.load name).1 = .ok t) ↔
    l.isCached name = true ∨ ∃ t, l.Supplies name t := by
  rw [isCached, Cache.has_eq]
  cases hc : (l.cache.get? name).1 with
  | some t => simp [load_cached hc]
  | none => simp [load_missed hc, loadFresh_eq_ok]

private theorem load_failed {e : TemplateError} (h : (l.load name).1 = .error e) :
    (l.cache.get? name).1 = none ∧ (l.load name).2 = l := by
  cases hc : (l.cache.get? name).1 with
  | some t =>
    rw [load_cached hc] at h
    cases h
  | none =>
    refine ⟨rfl, ?_⟩
    rcases load_uncached hc with ⟨e', hload⟩ | ⟨text, t, -, -, hload⟩
    · rw [hload]
    · rw [hload] at h
      cases h

/-- A load that fails changes nothing: neither what is cached, nor in which order it was used, nor
the sources. All requests are answered as if it had not been made, and a load of the name gives a
template as soon as one is cached or the first source that has the name has a text that compiles
and no source before it fails. -/
theorem failed_load_unseen (host : Host) {e : TemplateError} (h : (l.load name).1 = .error e) :
    (l.load name).2 = l ∧
    (∀ requests, l.replies host (.load name :: requests) =
      .loaded (.error e) :: l.replies host requests) ∧
    (∀ sources t, (({ l.after host (.load name) with sources } : Loader).load name).1 = .ok t ↔
      ({ l with sources } : Loader).Supplies name t) ∧
    ∀ requests sources,
      let later : Loader :=
        { (Request.load name :: requests).foldl (after host) l with sources }
      (∃ t, (later.load name).1 = .ok t) ↔
        later.isCached name = true ∨ ∃ t, later.Supplies name t := by
  obtain ⟨hmissed, hstays⟩ := load_failed h
  have hafter : l.after host (.load name) = l := hstays
  refine ⟨hstays, fun requests => ?_, fun sources t => ?_,
    fun requests sources => load_succeeds_iff⟩
  · rw [replies, hafter, reply, h]
  · have hmissed' : (({ l with sources } : Loader).cache.get? name).1 = none := hmissed
    rw [hafter, load_missed hmissed', loadFresh_eq_ok]

/-- The text of one name does not compile, while another one fills the cache. -/
theorem failed_load_unseen_full :
    let host : Host := fun _ _ => .error .overflow
    let texts : Dict String := [("a", "x"), ("b", "\x7b% if x %\x7d")]
    let l : Loader := (Loader.load ⟨0, .standard, [.memory texts], .recent (.empty 1), 0⟩ "a").2
    let texts' : Dict String := [("a", "x"), ("b", "y")]
    ∃ e t, ((l.load "b").1 = .error e ∧ l.isCached "a" = true) ∧
      (l.load "b").2 = l ∧
      (({ l.after host (.load "b") with sources := [.memory texts'] } : Loader).load "b").1 =
        .ok t := by
  intro host texts l texts'
  have hfails : (l.load "b").1.isOk = false := by decide +kernel
  have hcached : l.isCached "a" = true := by decide +kernel
  cases he : (l.load "b").1 with
  | ok t => simp [he, Except.isOk, Except.toBool] at hfails
  | error e =>
    have h := failed_load_unseen host he
    let mended : Loader := { l with sources := [.memory texts'] }
    have hcompiles : (mended.compile "y" "b" [] (.named "")).1.isOk = true := by decide +kernel
    cases hc : (mended.compile "y" "b" [] (.named "")).1 with
    | error e' => simp [hc, Except.isOk, Except.toBool] at hcompiles
    | ok t =>
      have hoffers : Source.Offers mended.sources "b" "y" :=
        ⟨[], .memory texts', [], rfl, by simp, rfl⟩
      exact ⟨e, t, ⟨rfl, hcached⟩, h.1, (h.2.2.1 _ t).mpr ⟨"y", hoffers, hc⟩⟩

end Loader

end Stencil
