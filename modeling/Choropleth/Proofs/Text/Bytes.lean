import Mathlib.Data.Char
import Mathlib.Data.List.Infix
import Mathlib.Data.String.Basic
import Mathlib.Tactic.Ring

/-!
# Texts as bytes

Stores compare texts byte by byte. This is the order of code points, and a text begins with another
if its bytes do.

* `Text.utf8`: the bytes of a text;
* `Text.utf8EncodeChar_lt`: the bytes of a smaller character are smaller where they differ first;
* `Text.utf8_le_iff`, `Text.utf8_prefix_iff`: comparing texts byte by byte.
-/

namespace Choropleth
namespace Text

/-- The bytes of a text. -/
def utf8 (s : String) : List UInt8 := s.toUTF8.data.toList

theorem utf8_eq_flatMap (s : String) : utf8 s = s.toList.flatMap String.utf8EncodeChar := by
  rw [utf8, String.toUTF8_eq_toByteArray, ← String.utf8Encode_toList, List.utf8Encode,
    List.toList_data_toByteArray]

theorem ofNat_lt {a b : ℕ} (h : a < b) (hb : b < 256) : UInt8.ofNat a < UInt8.ofNat b := by
  rw [UInt8.lt_iff_toNat_lt, UInt8.toNat_ofNat', UInt8.toNat_ofNat']
  omega

/-- Two lists have the same beginning, after which the first goes on with the smaller item. -/
def Precedes (l m : List UInt8) : Prop :=
  ∃ p x y u v, x < y ∧ l = p ++ x :: u ∧ m = p ++ y :: v

theorem Precedes.head {a b : ℕ} (h : a < b) (hb : b < 256) (u v : List UInt8) :
    Precedes (UInt8.ofNat a :: u) (UInt8.ofNat b :: v) :=
  ⟨[], _, _, u, v, ofNat_lt h hb, rfl, rfl⟩

theorem Precedes.cons {a b : ℕ} (hab : a = b) {u v : List UInt8} (h : Precedes u v) :
    Precedes (UInt8.ofNat a :: u) (UInt8.ofNat b :: v) := by
  obtain ⟨p, x, y, u', v', hxy, rfl, rfl⟩ := h
  exact ⟨UInt8.ofNat a :: p, x, y, u', v', hxy, rfl, by rw [hab]; rfl⟩

/-- The bytes of a smaller character are smaller where they differ first. -/
theorem utf8EncodeChar_lt {c d : Char} (h : c < d) :
    Precedes (String.utf8EncodeChar c) (String.utf8EncodeChar d) := by
  have hlt : c.val.toNat < d.val.toNat := h
  have hd : d.val.toNat < 0x110000 := by
    rcases d.valid with h | h
    · have h : d.val.toNat < 0xd800 := h
      omega
    · exact h.2
  unfold String.utf8EncodeChar
  generalize c.val.toNat = m at *
  generalize d.val.toNat = n at *
  dsimp only
  split_ifs
  · exact .head hlt (by omega) _ _
  · exact .head (by omega) (by omega) _ _
  · exact .head (by omega) (by omega) _ _
  · exact .head (by omega) (by omega) _ _
  · omega
  · rcases Nat.lt_or_ge (m / 64) (n / 64) with h | h
    · exact .head (by omega) (by omega) _ _
    · exact .cons (by omega) (.head (by omega) (by omega) _ _)
  · exact .head (by omega) (by omega) _ _
  · exact .head (by omega) (by omega) _ _
  · omega
  · omega
  · rcases Nat.lt_or_ge (m / 4096) (n / 4096) with h | h
    · exact .head (by omega) (by omega) _ _
    rcases Nat.lt_or_ge (m / 64) (n / 64) with h' | h'
    · exact .cons (by omega) (.head (by omega) (by omega) _ _)
    · exact .cons (by omega) (.cons (by omega) (.head (by omega) (by omega) _ _))
  · exact .head (by omega) (by omega) _ _
  · omega
  · omega
  · omega
  · rcases Nat.lt_or_ge (m / 262144) (n / 262144) with h | h
    · exact .head (by omega) (by omega) _ _
    rcases Nat.lt_or_ge (m / 4096) (n / 4096) with h' | h'
    · exact .cons (by omega) (.head (by omega) (by omega) _ _)
    rcases Nat.lt_or_ge (m / 64) (n / 64) with h'' | h''
    · exact .cons (by omega) (.cons (by omega) (.head (by omega) (by omega) _ _))
    · exact .cons (by omega) (.cons (by omega) (.cons (by omega) (.head (by omega) (by omega) _ _)))

theorem Precedes.append_lt {l m : List UInt8} (h : Precedes l m) (s t : List UInt8) :
    l ++ s < m ++ t := by
  obtain ⟨p, x, y, u, v, hxy, rfl, rfl⟩ := h
  induction p with
  | nil => exact List.cons_lt_cons_iff.2 (.inl hxy)
  | cons a p ih => exact List.cons_lt_cons_iff.2 (.inr ⟨rfl, ih⟩)

theorem Precedes.incomparable {l m : List UInt8} (h : Precedes l m) (s t : List UInt8) :
    ¬l ++ s <+: m ++ t ∧ ¬m ++ t <+: l ++ s := by
  obtain ⟨p, x, y, u, v, hxy, rfl, rfl⟩ := h
  have hne : x ≠ y := fun h => by simp [h] at hxy
  constructor
  · intro hp
    simp only [List.append_assoc, List.cons_append, List.prefix_append_right_inj,
      List.cons_prefix_cons] at hp
    exact hne hp.1
  · intro hp
    simp only [List.append_assoc, List.cons_append, List.prefix_append_right_inj,
      List.cons_prefix_cons] at hp
    exact hne hp.1.symm

theorem flatMap_encode_lt {s t : List Char} (h : s < t) :
    s.flatMap String.utf8EncodeChar < t.flatMap String.utf8EncodeChar := by
  induction s generalizing t with
  | nil =>
    cases t with
    | nil => cases h
    | cons d t =>
      rw [List.flatMap_nil, List.flatMap_cons]
      obtain ⟨b, r, hb⟩ := List.exists_cons_of_ne_nil (String.utf8EncodeChar_ne_nil (c := d))
      rw [hb]
      exact List.nil_lt_cons _ _
  | cons c s ih =>
    cases t with
    | nil => cases h
    | cons d t =>
      rw [List.flatMap_cons, List.flatMap_cons]
      rcases List.cons_lt_cons_iff.1 h with hcd | ⟨rfl, hst⟩
      · exact (utf8EncodeChar_lt hcd).append_lt _ _
      · exact List.append_left_lt (ih hst)

/-- **Texts are in order if their bytes are.** -/
theorem utf8_le_iff {s t : String} : utf8 s ≤ utf8 t ↔ s ≤ t := by
  rw [utf8_eq_flatMap, utf8_eq_flatMap]
  constructor
  · intro h
    by_contra hst
    have hlt : t < s := not_le.1 hst
    exact h (flatMap_encode_lt hlt)
  · intro h hlt
    rcases h.lt_or_eq with h | rfl
    · exact List.lt_asymm (flatMap_encode_lt h) hlt
    · exact List.lt_irrefl _ hlt

/-- **A text begins with another if its bytes do.** -/
theorem utf8_prefix_iff {s t : String} : utf8 s <+: utf8 t ↔ s.toList <+: t.toList := by
  rw [utf8_eq_flatMap, utf8_eq_flatMap]
  generalize s.toList = s, t.toList = t
  constructor
  · intro h
    induction s generalizing t with
    | nil => exact List.nil_prefix
    | cons c s ih =>
      cases t with
      | nil =>
        rw [List.flatMap_cons, List.flatMap_nil, List.prefix_nil, List.append_eq_nil_iff] at h
        exact absurd h.1 String.utf8EncodeChar_ne_nil
      | cons d t =>
        rw [List.flatMap_cons, List.flatMap_cons] at h
        rcases lt_trichotomy c d with hcd | rfl | hcd
        · exact absurd h ((utf8EncodeChar_lt hcd).incomparable _ _).1
        · rw [List.prefix_append_right_inj] at h
          exact List.cons_prefix_cons.2 ⟨rfl, ih t h⟩
        · exact absurd h ((utf8EncodeChar_lt hcd).incomparable _ _).2
  · rintro ⟨r, rfl⟩
    exact ⟨r.flatMap String.utf8EncodeChar, by rw [List.flatMap_append]⟩

end Text
end Choropleth
