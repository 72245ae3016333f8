import Stencil.Cache
import Stencil.Source
import Stencil.Template.Compile

/-!
# Loaders

Templates by name, from the first source that has the name, compiled once while the cache keeps
them. A template that a loader compiles refers back to it, so that it can insert others by name.
-/

namespace Stencil

/-- A loader, known by its number. Every template it compiles takes the next serial number. -/
structure Loader where
  number : Nat
  dialect : Dialect
  sources : List Source
  cache : Cache Template
  nextSerial : Nat
  deriving Inhabited

namespace Loader

/-- Metadata that refers to the loader unless it refers to one already. -/
def attach (l : Loader) (m : Metadata Value) : Metadata Value :=
  { m with loader := m.loader.or (some l.number) }

def compile (l : Loader) (source name : String) (defaults : Dict Value) (m : Metadata Value) :
    Except TemplateError Template × Loader :=
  match l.dialect.compile source name defaults (l.attach m) l.nextSerial with
  | .ok t => (.ok t, { l with nextSerial := l.nextSerial + 1 })
  | .error e => (.error e, l)

/-- Compiles the first text for a name and keeps the template. -/
def loadFresh (l : Loader) (name : String) : Except TemplateError Template × Loader :=
  match Source.firstText name l.sources with
  | .error e => (.error e, l)
  | .ok none => (.error (.notFound name), l)
  | .ok (some text) =>
    match l.compile text name [] (.named "") with
    | (.ok t, l) => (.ok t, { l with cache := l.cache.set name t })
    | (.error e, l) => (.error e, l)

/-- The template of a name: the cached one, else a fresh one. The cache is asked once more before
the sources are. -/
def load (l : Loader) (name : String) : Except TemplateError Template × Loader :=
  match l.cache.get? name with
  | (some t, cache) => (.ok t, { l with cache })
  | (none, cache) =>
    match cache.get? name with
    | (some t, cache) => (.ok t, { l with cache })
    | (none, cache) => ({ l with cache } : Loader).loadFresh name

theorem load_cached {l : Loader} {name : String} {t : Template}
    (h : (l.cache.get? name).1 = some t) :
    l.load name = (.ok t, { l with cache := (l.cache.get? name).2 }) := by
  unfold load
  rcases hg : l.cache.get? name with ⟨_ | u, cache⟩
  · rw [hg] at h
    cases h
  · rw [hg] at h
    cases h
    rfl

theorem load_missed {l : Loader} {name : String} (h : (l.cache.get? name).1 = none) :
    l.load name = l.loadFresh name := by
  simp only [load, Cache.get?_missed h]

def clear (l : Loader) : Loader :=
  { l with cache := l.cache.clear }

def isCached (l : Loader) (name : String) : Bool :=
  l.cache.has name

end Loader

end Stencil
