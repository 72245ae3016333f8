import Mathlib.Data.Set.Defs
import Stencil.Proofs.Expr.Mention
import Stencil.Proofs.Loader.Caching
import Stencil.Render.Basic

/-!
# Names in templates

The names that the expressions of a template mention, and the templates that can be reached from a
value: those in it, and those in the defaults and globals of templates in it.
-/

namespace Stencil

mutual

/-- The names in the expressions of a step. The targets of a loop are not looked up. -/
def Step.names : Step → List String
  | .text _ => []
  | .output f => f.tree.names
  | .choice clauses none => clauseNames clauses
  | .choice clauses (some body) => clauseNames clauses ++ blockNames body
  | .loop _ _ f body => f.tree.names ++ blockNames body
  | .insertion f => f.tree.names
  | .captured _ _ body => blockNames body

def clauseNames : List (Formula × List (Located Step)) → List String
  | [] => []
  | (condition, body) :: rest => condition.tree.names ++ (blockNames body ++ clauseNames rest)

def blockNames : List (Located Step) → List String
  | [] => []
  | ⟨_, step⟩ :: rest => step.names ++ blockNames rest

end

def Compiled.NamesIn (N : Set String) (t : Template) : Prop :=
  ∀ x ∈ blockNames t.body, x ∈ N

namespace Value

inductive Holds (t : Template) : Value → Prop where
  | self : Holds t (.template t)
  | item {items : List Value} {v : Value} : v ∈ items → Holds t v → Holds t (.list items)
  | entry {entries : List (String × Value)} {entry : String × Value} : entry ∈ entries →
      Holds t entry.2 → Holds t (.map entries)
  | default {u : Template} {entry : String × Value} : entry ∈ u.defaults →
      Holds t entry.2 → Holds t (.template u)
  | global {u : Template} {entry : String × Value} : entry ∈ u.metadata.globals →
      Holds t entry.2 → Holds t (.template u)

/-- Every template that can be reached from a value mentions names of a set only. -/
def Within (N : Set String) (v : Value) : Prop :=
  ∀ t, Holds t v → t.NamesIn N

theorem within_hereditary (N : Set String) : Hereditary (Within N) where
  none := nofun
  bool _ := nofun
  int _ := nofun
  real _ := nofun
  text _ := nofun
  function _ := nofun
  list items := by
    refine ⟨fun h v hv t ht => h t (.item hv ht), fun h t ht => ?_⟩
    cases ht with
    | item hv ht => exact h _ hv t ht
  map entries := by
    refine ⟨fun h entry he t ht => h t (.entry he ht), fun h t ht => ?_⟩
    cases ht with
    | entry he ht => exact h _ he t ht

end Value

def Dict.Within (N : Set String) (d : Dict Value) : Prop :=
  ∀ entry ∈ d, entry.2.Within N

theorem Dict.Within.extend {N : Set String} {d other : Dict Value} (hd : Dict.Within N d)
    (ho : Dict.Within N other) : Dict.Within N (d.extend other) := by
  intro entry he
  exact (Dict.mem_extend he).elim (hd entry) (ho entry)

structure Compiled.Within (N : Set String) (t : Template) : Prop where
  names : t.NamesIn N
  defaults : Dict.Within N t.defaults
  globals : Dict.Within N t.metadata.globals

theorem Value.within_template {N : Set String} {t : Template} :
    (Value.template t).Within N ↔ t.Within N := by
  constructor
  · intro h
    exact ⟨h t .self, fun entry he u hu => h u (.default he hu),
      fun entry he u hu => h u (.global he hu)⟩
  · intro h u hu
    cases hu with
    | self => exact h.names
    | default he hu => exact h.defaults _ he u hu
    | global he hu => exact h.globals _ he u hu

/-- A host whose functions return no templates but those they are given. -/
def Host.AddsNoTemplates (host : Host) : Prop :=
  ∀ name args v, host name args = .ok v → ∀ t, Value.Holds t v → ∃ a ∈ args, Value.Holds t a

theorem Host.AddsNoTemplates.yields {host : Host} (h : host.AddsNoTemplates) {N : Set String}
    (name : String) (args : List Value) (ha : ∀ v ∈ args, v.Within N) :
    Yields (Value.Within N) (host name args) := by
  intro v hv t ht
  obtain ⟨a, hmem, hat⟩ := h name args v hv t ht
  exact ha a hmem t hat

section Loops

variable {P : Value → Prop}

theorem loopBindings_yields (h : Value.Hereditary P) (targets : List String) (unpacks : Bool)
    {item : Value} (hi : P item) :
    Yields (fun bindings => ∀ entry ∈ bindings, P entry.2) (loopBindings targets unpacks item) := by
  have hunpack : Yields (fun bindings => ∀ entry ∈ bindings, P entry.2) (unpack targets item) := by
    refine (h.iterate hi).bind fun values hvalues => ?_
    dsimp only
    split
    · exact .error _
    · split
      · exact .error _
      · refine .ok fun entry he => ?_
        exact hvalues entry.2 (List.of_mem_zip he).2
  unfold loopBindings
  split
  · exact hunpack
  · split
    · exact .ok fun _ he => (List.not_mem_nil he).elim
    · exact .ok (List.forall_mem_singleton.mpr hi)

end Loops

namespace Dict

/-- Dictionaries that are the same under the names of a set, with values within it. All entries of a
name count: one that another hides is set again where a template is inserted. -/
def AgreeOn (N : Set String) (d e : Dict Value) : Prop :=
  ∀ x ∈ N, d.slot x = e.slot x ∧ Within N (d.slot x)

namespace AgreeOn

variable {N : Set String} {d e : Dict Value}

theorem get? (h : AgreeOn N d e) {x : String} (hx : x ∈ N) : d.get? x = e.get? x := by
  rw [← get?_slot, (h x hx).1, get?_slot]

theorem within (h : AgreeOn N d e) {x : String} (hx : x ∈ N) {v : Value}
    (hv : d.get? x = some v) : v.Within N := by
  rw [← get?_slot] at hv
  exact (h x hx).2 _ (mem_of_get? hv)

theorem refl (h : Within N d) : AgreeOn N d d :=
  fun _ _ => ⟨rfl, fun entry he => h entry (List.mem_of_mem_filter he)⟩

theorem extend {d' e' : Dict Value} (h : AgreeOn N d e) (h' : AgreeOn N d' e') :
    AgreeOn N (d.extend d') (e.extend e') := by
  intro x hx
  obtain ⟨heq, hd⟩ := h x hx
  obtain ⟨heq', hd'⟩ := h' x hx
  rw [slot_extend, slot_extend, heq, heq']
  exact ⟨rfl, (heq ▸ hd).extend (heq' ▸ hd')⟩

/-- Settings that come to the same under the names of a set may be made in different order. -/
theorem settings (hd : Within N d) {params params' : Dict Value}
    (hagree : ∀ x ∈ N, Dict.get? x (ofList params) = Dict.get? x (ofList params'))
    (hparams : ∀ x ∈ N, ∀ v, Dict.get? x (ofList params) = some v → v.Within N) :
    AgreeOn N (d.extend params) (d.extend params') := by
  intro x hx
  have hslot : Within N (d.slot x) := fun entry he => hd entry (List.mem_of_mem_filter he)
  rw [slot_extend_ofList, slot_extend_ofList, ← hagree x hx]
  refine ⟨rfl, ?_⟩
  cases hv : Dict.get? x (ofList params) with
  | none => exact hslot
  | some v =>
    intro entry he
    rcases mem_set he with rfl | he
    · exact hparams x hx v hv
    · exact hslot entry he

end AgreeOn

end Dict

end Stencil
