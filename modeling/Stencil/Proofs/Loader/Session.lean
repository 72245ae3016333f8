import Stencil.Proofs.Loader.Caching
import Stencil.Proofs.Loader.Trail

/-!
# Sessions with a loader

A loader with an unbounded cache over a session of requests: the first load of a name that succeeds
since the cache was cleared compiles what the sources hold then, and later ones give its template
again, whatever becomes of the sources.
-/

namespace Stencil

/-- The first of the sources that have a name has this text under it. -/
def Source.Offers (sources : List Source) (name text : String) : Prop :=
  ∃ before s after, sources = before ++ s :: after ∧ (∀ r ∈ before, r.load name = .ok none) ∧
    s.load name = .ok (some text)

theorem Source.offers_of_firstText {sources : List Source} {name text : String}
    (h : firstText name sources = .ok (some text)) : Offers sources name text := by
  induction sources with
  | nil => cases h
  | cons s rest ih =>
    rw [firstText] at h
    cases hs : s.load name with
    | error e => simp [hs] at h
    | ok found =>
      cases found with
      | none =>
        rw [hs] at h
        obtain ⟨before, r, after, rfl, hnone, hr⟩ := ih h
        exact ⟨s :: before, r, after, rfl, by simpa [hs] using hnone, hr⟩
      | some found =>
        rw [hs] at h
        cases h
        exact ⟨[], s, rest, rfl, by simp, hs⟩

inductive Request where
  | load (name : String)
  | render (name : String) (params : Dict Value) (depth : Nat)
  /-- A render of a template that the host has already. -/
  | renderTemplate (t : Template) (params : Dict Value) (depth : Nat)
  | compile (source name : String) (defaults : Dict Value) (m : Metadata Value)
  | isCached (name : String)
  | clear
  | alter (source : Nat) (change : Source.Change)

inductive Moment where
  | asked (a : Ask)
  | compiled (source name : String) (defaults : Dict Value) (m : Metadata Value)
  | cleared
  | altered (source : Nat) (change : Source.Change)

namespace Loader

def alter (l : Loader) (n : Nat) (change : Source.Change) : Loader :=
  { l with sources := Source.alter change n l.sources }

def after (host : Host) (l : Loader) : Request → Loader
  | .load name => (l.load name).2
  | .render name params depth => (l.render host depth name params).2.getD l
  | .renderTemplate t params depth => (t.render host depth params (some l)).2.getD l
  | .compile source name defaults m => (l.compile source name defaults m).2
  | .isCached _ => l
  | .clear => l.clear
  | .alter n change => l.alter n change

/-- What happens in a request, loads of the templates it inserts by name included. -/
def moments (host : Host) (l : Loader) : Request → List Moment
  | .load name => [.asked ⟨name, l⟩]
  | .render name params depth => (l.trail host depth name params).map .asked
  | .renderTemplate t params depth => (t.trail host depth params (some l)).map .asked
  | .compile source name defaults m => [.compiled source name defaults m]
  | .isCached _ => []
  | .clear => [.cleared]
  | .alter n change => [.altered n change]

def journal (host : Host) : Loader → List Request → List Moment
  | _, [] => []
  | l, request :: rest => l.moments host request ++ journal host (l.after host request) rest

def next (l : Loader) : Moment → Loader
  | .asked a => (l.load a.name).2
  | .compiled source name defaults m => (l.compile source name defaults m).2
  | .cleared => l.clear
  | .altered n change => l.alter n change

end Loader

def replay (sources : List Source) (past : List Moment) : List Source :=
  past.foldl (fun sources moment =>
    match moment with
    | .altered n change => Source.alter change n sources
    | _ => sources) sources

/-- A load of a name gave a template, and nothing was cleared since. -/
def Loaded (name : String) (t : Template) (past : List Moment) : Prop :=
  ∃ before a after, past = before ++ .asked a :: after ∧ a.name = name ∧ a.answer = .ok t ∧
    .cleared ∉ after

private theorem loaded_snoc {name : String} {t : Template} {past : List Moment} {m : Moment} :
    Loaded name t (past ++ [m]) ↔
      (∃ a, m = .asked a ∧ a.name = name ∧ a.answer = .ok t) ∨
        (m ≠ .cleared ∧ Loaded name t past) := by
  constructor
  · rintro ⟨before, a, after, h, hn, ha, hc⟩
    rcases List.eq_nil_or_concat after with rfl | ⟨after, m', rfl⟩
    · obtain ⟨rfl, hm⟩ := List.append_inj' h rfl
      exact .inl ⟨a, (List.cons.inj hm).1, hn, ha⟩
    · rw [List.concat_eq_append] at h hc
      rw [← List.cons_append, ← List.append_assoc] at h
      obtain ⟨rfl, hm⟩ := List.append_inj' h rfl
      obtain rfl := (List.cons.inj hm).1
      simp only [List.mem_append, List.mem_singleton, not_or] at hc
      exact .inr ⟨Ne.symm hc.2, before, a, after, rfl, hn, ha, hc.1⟩
  · rintro (⟨a, rfl, hn, ha⟩ | ⟨hm, before, a, after, rfl, hn, ha, hc⟩)
    · exact ⟨past, a, [], rfl, hn, ha, by simp⟩
    · refine ⟨before, a, after ++ [m], by simp, hn, ha, ?_⟩
      simp only [List.mem_append, List.mem_singleton, not_or]
      exact ⟨hc, Ne.symm hm⟩

private theorem loaded_asked {name : String} {t : Template} {past : List Moment} {a : Ask} :
    Loaded name t (past ++ [.asked a]) ↔
      (a.name = name ∧ a.answer = .ok t) ∨ Loaded name t past := by
  simp [loaded_snoc]

private theorem Loaded.mem {name : String} {t : Template} {past : List Moment}
    (h : Loaded name t past) :
    ∃ a, .asked a ∈ past ∧ a.answer = .ok t := by
  obtain ⟨before, a, after, rfl, -, ha, -⟩ := h
  exact ⟨a, by simp, ha⟩

/-- Moments that follow from one loader to another: each load is asked of the loader of its time. -/
inductive Happens : Loader → List Moment → Loader → Prop where
  | nil {l} : Happens l [] l
  | cons {l m ms l'} : (∀ a, m = .asked a → a.loader = l) → Happens (l.next m) ms l' →
      Happens l (m :: ms) l'

namespace Happens

private theorem append {k l m : Loader} {xs ys : List Moment} (h : Happens k xs l)
    (hm : Happens l ys m) : Happens k (xs ++ ys) m := by
  induction h with
  | nil => exact hm
  | cons ha _ ih => exact .cons ha (ih hm)

private theorem split {k m : Loader} {xs ys : List Moment} (h : Happens k (xs ++ ys) m) :
    ∃ l, Happens k xs l ∧ Happens l ys m := by
  induction xs generalizing k with
  | nil => exact ⟨k, .nil, h⟩
  | cons x xs ih =>
    cases h with
    | cons ha hrest =>
      obtain ⟨l, hx, hy⟩ := ih hrest
      exact ⟨l, .cons ha hx, hy⟩

private theorem of_loads {l : Loader} {as : List Ask} {o : Option Loader}
    (h : Loads (some l) as o) :
    ∃ l', o = some l' ∧ Happens l (as.map .asked) l' := by
  generalize hl : some l = p at h
  induction h generalizing l with
  | nil => exact ⟨l, hl.symm, .nil⟩
  | @cons a as o _ ih =>
    cases hl
    obtain ⟨l', rfl, hrest⟩ := ih rfl
    refine ⟨l', rfl, .cons ?_ hrest⟩
    rintro _ ⟨⟩
    rfl

end Happens

namespace Loader

private theorem moments_happen (host : Host) (l : Loader) (request : Request) :
    Happens l (l.moments host request) (l.after host request) := by
  cases request with
  | load name =>
    refine .cons ?_ .nil
    rintro _ ⟨⟩
    rfl
  | render name params depth =>
    obtain ⟨l', hl, h⟩ := Happens.of_loads (l.trail_loads host depth name params)
    rw [after, hl]
    exact h
  | renderTemplate t params depth =>
    obtain ⟨l', hl, h⟩ := Happens.of_loads (t.trail_loads host depth params (some l))
    rw [after, hl]
    exact h
  | compile source name defaults m => exact .cons (by simp) .nil
  | isCached name => exact .nil
  | clear => exact .cons (by simp) .nil
  | alter n change => exact .cons (by simp) .nil

theorem journal_happens (host : Host) (l : Loader) (requests : List Request) :
    Happens l (l.journal host requests) (requests.foldl (after host) l) := by
  induction requests generalizing l with
  | nil => exact .nil
  | cons request rest ih => exact (l.moments_happen host request).append (ih _)

end Loader

namespace Loader

theorem load_uncached {l : Loader} {name : String} (h : (l.cache.get? name).1 = none) :
    (∃ e, l.load name = (.error e, l)) ∨
      ∃ text t, Source.Offers l.sources name text ∧
        l.dialect.compile text name [] ⟨"", none, some l.number, []⟩ l.nextSerial = .ok t ∧
        l.load name = (.ok t, ⟨l.number, l.dialect, l.sources, l.cache.set name t,
          l.nextSerial + 1⟩) := by
  rw [load_missed h]
  unfold loadFresh
  cases hf : Source.firstText name l.sources with
  | error e => exact .inl ⟨e, rfl⟩
  | ok found =>
    cases found with
    | none => exact .inl ⟨.notFound name, rfl⟩
    | some text =>
      simp only [compile]
      cases hc : l.dialect.compile text name [] (l.attach (.named "")) l.nextSerial with
      | error e => exact .inl ⟨e, rfl⟩
      | ok t => exact .inr ⟨text, t, Source.offers_of_firstText hf, hc, rfl⟩

end Loader

/-- What a loader is, that began with an unbounded empty cache, after what happened. -/
structure Tracks (start : Loader) (past : List Moment) (l : Loader) : Prop where
  number : l.number = start.number
  dialect : l.dialect = start.dialect
  sources : l.sources = replay start.sources past
  unbounded : l.cache.Unbounded
  kept : ∀ name t, (l.cache.get? name).1 = some t ↔ Loaded name t past
  serials : ∀ a t, .asked a ∈ past → a.answer = .ok t → t.serial < l.nextSerial

private theorem Dialect.serial_of_compile {d : Dialect} {source name : String}
    {defaults : Dict Value} {m : Metadata Value} {serial : Nat} {t : Template}
    (h : d.compile source name defaults m serial = .ok t) : t.serial = serial := by
  unfold compile at h
  cases hb : d.assemble source name with
  | error e => simp [hb, bind, Except.bind] at h
  | ok body =>
    rw [hb] at h
    cases h
    rfl

private theorem replay_snoc (sources : List Source) (past : List Moment) (m : Moment) :
    replay sources (past ++ [m]) =
      match m with
      | .altered n change => Source.alter change n (replay sources past)
      | _ => replay sources past := by
  rw [replay, List.foldl_append]
  rfl

namespace Tracks

variable {start l : Loader} {past : List Moment}

private theorem serial_lt (h : Tracks start past l) {name : String} {t : Template}
    (ht : Loaded name t past) : t.serial < l.nextSerial := by
  obtain ⟨a, hmem, ha⟩ := ht.mem
  exact h.serials a t hmem ha

private theorem sources_asked (h : Tracks start past l) (a : Ask) :
    l.sources = replay start.sources (past ++ [.asked a]) := by
  rw [replay_snoc]
  exact h.sources

private theorem serials_asked (h : Tracks start past l) {a : Ask} {next : Nat}
    (hnext : l.nextSerial ≤ next)
    (ha : ∀ t, a.answer = .ok t → t.serial < next) (b : Ask) (t : Template)
    (hb : .asked b ∈ past ++ [.asked a]) (ht : b.answer = .ok t) : t.serial < next := by
  rcases List.mem_append.mp hb with hold | hone
  · exact Nat.lt_of_lt_of_le (h.serials b t hold ht) hnext
  · cases List.mem_singleton.mp hone
    exact ha t ht

private theorem asked_cached {a : Ask} (h : Tracks start past a.loader) {t : Template}
    (hcache : (a.loader.cache.get? a.name).1 = some t) :
    Tracks start (past ++ [.asked a]) a.left := by
  have hload := Loader.load_cached hcache
  have hloaded : Loaded a.name t past := (h.kept a.name t).mp hcache
  have hanswer : a.answer = .ok t := by rw [Ask.answer, hload]
  rw [Ask.left, hload]
  refine ⟨h.number, h.dialect, h.sources_asked a, h.unbounded.use a.name, ?_, ?_⟩
  · intro name u
    rw [h.unbounded.get?_use, h.kept, loaded_asked, hanswer]
    constructor
    · exact .inr
    · rintro (⟨rfl, ⟨⟩⟩ | hu)
      · exact hloaded
      · exact hu
  · apply h.serials_asked (Nat.le_refl _)
    rw [hanswer]
    rintro _ ⟨⟩
    exact h.serial_lt hloaded

private theorem asked_failed {a : Ask} (h : Tracks start past a.loader) {e : TemplateError}
    (hload : a.loader.load a.name = (.error e, a.loader)) :
    Tracks start (past ++ [.asked a]) a.left := by
  have hanswer : a.answer = .error e := by rw [Ask.answer, hload]
  rw [Ask.left, hload]
  refine ⟨h.number, h.dialect, h.sources_asked a, h.unbounded, ?_, ?_⟩
  · intro name u
    rw [h.kept, loaded_asked, hanswer]
    simp
  · apply h.serials_asked (Nat.le_refl _)
    rw [hanswer]
    rintro _ ⟨⟩

private theorem asked_fresh {a : Ask} (h : Tracks start past a.loader) {t : Template}
    (hcache : (a.loader.cache.get? a.name).1 = none) (ht : t.serial = a.loader.nextSerial)
    (hload : a.loader.load a.name = (.ok t, ⟨a.loader.number, a.loader.dialect, a.loader.sources,
      a.loader.cache.set a.name t, a.loader.nextSerial + 1⟩)) :
    Tracks start (past ++ [.asked a]) a.left := by
  have hanswer : a.answer = .ok t := by rw [Ask.answer, hload]
  rw [Ask.left, hload]
  refine ⟨h.number, h.dialect, h.sources_asked a, h.unbounded.set a.name t, ?_, ?_⟩
  · intro name u
    rw [h.unbounded.get?_set, loaded_asked, hanswer]
    split
    · next hname =>
      subst hname
      have hnot : ¬ Loaded a.name u past := by
        rw [← h.kept, hcache]
        simp
      simp [hnot]
    · next hname => simp [hname, h.kept]
  · apply h.serials_asked (Nat.le_succ _)
    rw [hanswer]
    rintro _ ⟨⟩
    omega

private theorem asked {a : Ask} (h : Tracks start past a.loader) :
    Tracks start (past ++ [.asked a]) a.left := by
  cases hcache : (a.loader.cache.get? a.name).1 with
  | some t => exact h.asked_cached hcache
  | none =>
    rcases Loader.load_uncached hcache with ⟨e, hload⟩ | ⟨text, t, -, hcompile, hload⟩
    · exact h.asked_failed hload
    · exact h.asked_fresh hcache (Dialect.serial_of_compile hcompile) hload

/-- Serial numbers may be used up between loads. -/
private theorem quiet (h : Tracks start past l) {m : Moment} (hasked : ∀ a, m ≠ .asked a)
    (hcleared : m ≠ .cleared) {sources : List Source} {serial : Nat}
    (hsources : sources = replay start.sources (past ++ [m])) (hserial : l.nextSerial ≤ serial) :
    Tracks start (past ++ [m]) ⟨l.number, l.dialect, sources, l.cache, serial⟩ := by
  refine ⟨h.number, h.dialect, hsources, h.unbounded, ?_, ?_⟩
  · intro name t
    rw [h.kept, loaded_snoc]
    simp [hasked, hcleared]
  · intro b t hb ht
    have hold : .asked b ∈ past := by simpa [(hasked b).symm] using hb
    exact Nat.lt_of_lt_of_le (h.serials b t hold ht) hserial

private theorem next (h : Tracks start past l) (m : Moment)
    (hm : ∀ a, m = .asked a → a.loader = l) :
    Tracks start (past ++ [m]) (l.next m) := by
  cases m with
  | asked a =>
    obtain rfl := hm a rfl
    exact h.asked
  | compiled source name defaults m =>
    have hsources :
        l.sources = replay start.sources (past ++ [.compiled source name defaults m]) := by
      rw [replay_snoc]
      exact h.sources
    change Tracks start _ (l.compile source name defaults m).2
    unfold Loader.compile
    cases l.dialect.compile source name defaults (l.attach m) l.nextSerial with
    | error e => exact h.quiet (by simp) (by simp) hsources (Nat.le_refl _)
    | ok t => exact h.quiet (by simp) (by simp) hsources (Nat.le_succ _)
  | cleared =>
    refine ⟨h.number, h.dialect, ?_, h.unbounded.clear, ?_, ?_⟩
    · rw [replay_snoc]
      exact h.sources
    · intro name t
      rw [Loader.next, Loader.clear, Cache.get?_clear, loaded_snoc]
      simp
    · intro b t hb
      exact h.serials b t (by simpa using hb)
  | altered n change =>
    refine h.quiet (by simp) (by simp) ?_ (Nat.le_refl _)
    rw [replay_snoc]
    exact congrArg (Source.alter change n) h.sources

private theorem run {ms : List Moment} {l' : Loader} (h : Tracks start past l)
    (hrun : Happens l ms l') :
    Tracks start (past ++ ms) l' := by
  induction hrun generalizing past with
  | nil => simpa using h
  | cons hm _ ih =>
    have hnext := ih (h.next _ hm)
    rwa [List.append_assoc] at hnext

private theorem begin (number serial : Nat) (dialect : Dialect) (sources : List Source) :
    Tracks ⟨number, dialect, sources, .recent (.empty 0), serial⟩ []
      ⟨number, dialect, sources, .recent (.empty 0), serial⟩ := by
  refine ⟨rfl, rfl, rfl, ⟨[], rfl⟩, ?_, ?_⟩
  · intro name t
    constructor
    · rintro ⟨⟩
    · rintro ⟨before, a, after, h, -⟩
      simp at h
  · rintro a t ⟨⟩

end Tracks

namespace Loader

variable (host : Host) (number serial : Nat) (dialect : Dialect) (sources : List Source)
  (requests : List Request)

/-- The loader of every load in a session is what the moments before it made of the first one. -/
private theorem tracks_asked {start : Loader} (hstart : Tracks start [] start)
    {before after : List Moment}
    {a : Ask} (h : start.journal host requests = before ++ .asked a :: after) :
    Tracks start before a.loader := by
  have hrun := start.journal_happens host requests
  rw [h] at hrun
  obtain ⟨l, hbefore, hrest⟩ := hrun.split
  have htracks := hstart.run hbefore
  cases hrest with
  | cons ha _ =>
    rw [ha a rfl]
    exact htracks

/-- In every session with a loader whose cache starts out empty and without bound: the first load
of a name that succeeds since the cache was cleared compiles the text of the first source that has
the name then, as a template that was not there before; every later load of the name gives that
template until the cache is cleared; and a name is cached just if such a load has happened. -/
theorem load_identity :
    let start : Loader := ⟨number, dialect, sources, .recent (.empty 0), serial⟩
    let moments := start.journal host requests
    (∀ before a after t, moments = before ++ .asked a :: after →
      (∀ u, ¬ Loaded a.name u before) → a.answer = .ok t →
        ∃ text serial, Source.Offers (replay sources before) a.name text ∧
          dialect.compile text a.name [] ⟨"", none, some number, []⟩ serial = .ok t ∧
          ∀ b u, .asked b ∈ before → b.answer = .ok u → u.serial < t.serial) ∧
    (∀ before a between b after t,
      moments = before ++ .asked a :: between ++ .asked b :: after → .cleared ∉ between →
        b.name = a.name → a.answer = .ok t → b.answer = .ok t) ∧
    ∀ name, (requests.foldl (after host) start).isCached name = true ↔
      ∃ t, Loaded name t moments := by
  intro start moments
  have hstart : Tracks start [] start := .begin number serial dialect sources
  refine ⟨?_, ?_, ?_⟩
  · intro before a after t hmoments hnew ht
    have h := tracks_asked host requests hstart hmoments
    have hnone : (a.loader.cache.get? a.name).1 = none :=
      Option.eq_none_iff_forall_ne_some.mpr fun u hu => hnew u ((h.kept a.name u).mp hu)
    rcases load_uncached hnone with ⟨e, hload⟩ | ⟨text, u, hoffers, hcompile, hload⟩
    · rw [Ask.answer, hload] at ht
      cases ht
    · rw [Ask.answer, hload] at ht
      cases ht
      rw [h.sources] at hoffers
      rw [h.dialect, h.number] at hcompile
      refine ⟨text, _, hoffers, hcompile, ?_⟩
      rw [Dialect.serial_of_compile hcompile]
      exact h.serials
  · intro before a between b after t hmoments hclear hname ht
    have h := tracks_asked host requests hstart hmoments
    have hloaded : Loaded b.name t (before ++ .asked a :: between) :=
      ⟨before, a, between, rfl, hname.symm, ht, hclear⟩
    rw [Ask.answer, load_cached ((h.kept b.name t).mpr hloaded)]
  · intro name
    have h := hstart.run (start.journal_happens host requests)
    rw [isCached, Cache.has_eq, Option.isSome_iff_exists]
    exact exists_congr fun t => h.kept name t

theorem load_after_alter :
    let start : Loader := ⟨0, .standard, [.memory [("a", "x")]], .recent (.empty 0), 0⟩
    let altered : Loader := (start.load "a").2.alter 0 (.add "a" "y")
    ∃ t, (start.load "a").1 = .ok t ∧ (altered.load "a").1 = .ok t := by
  intro start altered
  have hok : (start.load "a").1.isOk = true := by decide +kernel
  cases ht : (start.load "a").1 with
  | error e => simp [ht, Except.isOk, Except.toBool] at hok
  | ok t =>
    have h := load_identity (fun _ _ => .error .overflow) 0 0 .standard [.memory [("a", "x")]]
      [.load "a", .alter 0 (.add "a" "y"), .load "a"]
    exact ⟨t, rfl, h.2.1 [] ⟨"a", start⟩ [.altered 0 (.add "a" "y")] ⟨"a", altered⟩ [] t rfl
      (by simp) rfl ht⟩

/-- A template inserted by name is kept when its text changes, until the cache is cleared. -/
example :
    let texts : Dict String := [("a", "\x7b% include 'b' %\x7d"), ("b", "x")]
    let start : Loader := ⟨0, .standard, [.memory texts], .recent (.empty 0), 0⟩
    let requests : List Request :=
      [.render "a" [] 1, .alter 0 (.add "b" "y"), .load "b", .clear, .load "b"]
    ((start.journal (fun _ _ => .error .overflow) requests).filterMap fun
      | .asked a => a.answer.toOption.map fun t => (a.name, t.serial)
      | _ => none) = [("a", 0), ("b", 1), ("b", 1), ("b", 2)] := by
  decide +kernel

end Loader

end Stencil
