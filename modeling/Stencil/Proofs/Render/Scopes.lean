import Stencil.Proofs.Value.Dict
import Stencil.Scope

/-! # Scopes of inserted templates -/

namespace Stencil

def Compiled.Distinct (t : Template) : Prop :=
  (Dict.keys t.defaults).Nodup ∧ (Dict.keys t.metadata.globals).Nodup

namespace Scope

theorem inserted_bindings (s : Scope) {t : Template} (hs : (Dict.keys s.bindings).Nodup)
    (ht : t.Distinct) (name : String) :
    Dict.get? name (s.inserted t none).bindings =
      (Dict.get? name s.bindings).or (Dict.get? name t.defaults) := by
  have hnodup := Dict.keys_extend_nodup ht.1 s.bindings
  rw [inserted, inner, Dict.get?_extend_nodup _ hnodup, Dict.get?_extend_nodup _ hs]
  cases Dict.get? name s.bindings with
  | none => simp
  | some v => rfl

theorem inserted_globals (s : Scope) {t : Template} (ht : t.Distinct) (name : String) :
    Dict.get? name (s.inserted t none).metadata.globals =
      (Dict.get? name t.metadata.globals).or (Dict.get? name s.metadata.globals) :=
  Dict.get?_extend_nodup _ ht.2 name

/-- A template without defaults and globals that has a loader, inserted where there are no globals,
is in the scope it would be rendered in with the bindings around it. -/
theorem inserted_bare {t : Template} (hdefaults : t.defaults = [])
    (hglobals : t.metadata.globals = []) (hloader : t.metadata.loader ≠ none)
    {m : Metadata Value} (hm : m.globals = []) (params : Dict Value) :
    inserted ⟨Dict.ofList params, m⟩ t none = ofTemplate t params := by
  have hempty : (Dict.keys ([] : Dict Value)).Nodup := List.nodup_nil
  have hnodup : (Dict.keys (Dict.ofList params)).Nodup := Dict.keys_extend_nodup hempty params
  have hbindings : Dict.extend (Dict.ofList params) (Dict.extend [] (Dict.ofList params)) =
      Dict.ofList params := by
    rw [Dict.extend_nil hnodup]
    exact Dict.extend_of_get? fun entry => Dict.get?_of_mem hnodup
  have hmetadata : m.overlay t.metadata = t.metadata := by
    obtain ⟨number, hnumber⟩ := Option.ne_none_iff_exists'.mp hloader
    have hsame : Dict.extend m.globals t.metadata.globals = t.metadata.globals := by
      rw [hm, hglobals]
      rfl
    rw [Metadata.overlay, hsame, hnumber, Option.some_or, ← hnumber]
  rw [inserted, inner, ofTemplate, hdefaults, hbindings, hmetadata]
  rfl

end Scope

end Stencil
