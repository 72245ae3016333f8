import Mathlib.Tactic.SplitIfs

/-!
# The order of texts

Texts are ordered as the bytes that encode them are.
-/

namespace Stencil.Text

def bytes (s : String) : List UInt8 :=
  s.toUTF8.data.toList

private theorem bytes_eq (s : String) : bytes s = s.toList.flatMap String.utf8EncodeChar := by
  have h : s.toUTF8 = (s.toList.flatMap String.utf8EncodeChar).toByteArray :=
    (congrArg String.toByteArray String.ofList_toList).symm.trans String.toByteArray_ofList
  rw [bytes, h, List.data_toByteArray]

section Byte

variable {a b : Nat} (ha : a < 256) (hb : b < 256)
include ha hb

private theorem byte_lt_iff : UInt8.ofNat a < UInt8.ofNat b ↔ a < b := by
  rw [UInt8.lt_iff_toNat_lt, UInt8.toNat_ofNat_of_lt' ha, UInt8.toNat_ofNat_of_lt' hb]

private theorem byte_eq_iff : UInt8.ofNat a = UInt8.ofNat b ↔ a = b := by
  rw [← UInt8.toNat_inj, UInt8.toNat_ofNat_of_lt' ha, UInt8.toNat_ofNat_of_lt' hb]

end Byte

/-- Of two characters the smaller one is encoded by smaller bytes, whatever follows. -/
private theorem encode_lt {c d : Char} (h : c < d) (xs ys : List UInt8) :
    String.utf8EncodeChar c ++ xs < String.utf8EncodeChar d ++ ys := by
  have hlt : c.val.toNat < d.val.toNat := h
  have hd : d.val.toNat < 0x110000 := by
    rcases d.valid with h | h
    · exact Nat.lt_trans h (by decide)
    · exact h.2
  unfold String.utf8EncodeChar
  generalize c.val.toNat = v at hlt
  generalize d.val.toNat = w at hlt hd
  have hv₀ : v / 262144 % 8 = v / 262144 := Nat.mod_eq_of_lt (by omega)
  have hw₀ : w / 262144 % 8 = w / 262144 := Nat.mod_eq_of_lt (by omega)
  dsimp only
  -- The lengths of both tell the first bytes apart; among equals the first digits that differ do.
  split_ifs <;> first
    | omega
    | simp only [List.cons_append, List.nil_append, List.cons_lt_cons_iff, hv₀, hw₀]
      simp (disch := omega) only [byte_lt_iff, byte_eq_iff]
      omega

theorem bytes_lt {s t : String} (h : s < t) : bytes s < bytes t := by
  rw [String.lt_iff] at h
  rw [bytes_eq, bytes_eq]
  generalize s.toList = cs at h
  generalize t.toList = ds at h
  induction cs generalizing ds with
  | nil =>
    cases ds with
    | nil => exact absurd h (List.lt_irrefl _)
    | cons d ds =>
      have hne : String.utf8EncodeChar d ≠ [] := by
        unfold String.utf8EncodeChar
        dsimp only
        split_ifs <;> simp
      obtain ⟨b, rest, hb⟩ := List.exists_cons_of_ne_nil hne
      rw [List.flatMap_cons, hb]
      exact List.nil_lt_cons _ _
  | cons c cs ih =>
    cases ds with
    | nil => exact absurd h (List.not_lt_nil _)
    | cons d ds =>
      rw [List.flatMap_cons, List.flatMap_cons]
      rcases List.cons_lt_cons_iff.mp h with hlt | ⟨rfl, hlt⟩
      · exact encode_lt hlt _ _
      · exact List.append_left_lt (ih ds hlt)

end Stencil.Text
