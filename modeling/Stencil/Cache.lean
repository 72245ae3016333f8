import Stencil.Dict

/-!
# Caches

A cache that keeps what was used last. Entries stand in the order of their last use, the latest
first; looking whether a key is there is no use.
-/

namespace Stencil

/-- Entries by their last use; a capacity of zero has no bound. -/
structure Recent (α : Type) where
  capacity : Nat
  entries : List (String × α)
  deriving Inhabited

namespace Recent

variable {α : Type}

def empty (capacity : Nat) : Recent α :=
  ⟨capacity, []⟩

/-- The value under a key, without using it. -/
def peek? (c : Recent α) (key : String) : Option α :=
  Dict.get? key c.entries

def has (c : Recent α) (key : String) : Bool :=
  (c.peek? key).isSome

def remove (c : Recent α) (key : String) : Recent α :=
  { c with entries := Dict.remove key c.entries }

def touch (c : Recent α) (key : String) : Recent α :=
  match c.peek? key with
  | some v => { c with entries := (key, v) :: Dict.remove key c.entries }
  | none => c

/-- Drops the entry used longest ago if there are more than the capacity. -/
def trim (c : Recent α) : Recent α :=
  if c.capacity = 0 then c else { c with entries := c.entries.take c.capacity }

/-- Puts a value under a key, which counts as use. -/
def set (c : Recent α) (key : String) (v : α) : Recent α :=
  ({ c with entries := (key, v) :: Dict.remove key c.entries } : Recent α).trim

def clear (c : Recent α) : Recent α :=
  { c with entries := [] }

end Recent

/-- A cache that keeps nothing, or what was used last. -/
inductive Cache (α : Type) where
  | off
  | recent (entries : Recent α)
  deriving Inhabited

namespace Cache

variable {α : Type}

/-- The value under a key, and the cache after its use. -/
def get? (c : Cache α) (key : String) : Option α × Cache α :=
  match c with
  | off => (none, off)
  | recent r => (r.peek? key, recent (r.touch key))

def set (c : Cache α) (key : String) (v : α) : Cache α :=
  match c with
  | off => off
  | recent r => recent (r.set key v)

def remove (c : Cache α) (key : String) : Cache α :=
  match c with
  | off => off
  | recent r => recent (r.remove key)

def clear (c : Cache α) : Cache α :=
  match c with
  | off => off
  | recent r => recent r.clear

def has (c : Cache α) (key : String) : Bool :=
  match c with
  | off => false
  | recent r => r.has key

def size? (c : Cache α) : Option Nat :=
  match c with
  | off => none
  | recent r => some r.entries.length

/-- Looking for a key that is not cached leaves the entries and their order alone. -/
theorem get?_missed {c : Cache α} {key : String} (h : (c.get? key).1 = none) :
    c.get? key = (none, c) := by
  cases c with
  | off => rfl
  | recent r =>
    change r.peek? key = none at h
    simp only [get?, Recent.touch, h]

end Cache

end Stencil
