import Mathlib.Data.Nat.ModEq
import Mathlib.Tactic

/-! Sums with end-around carry. Modulo `m` they are plain sums; of the two representations of zero, only `m` is
reached from a start between 1 and `m`. -/

namespace CourseArchive.Lib

def carryAdd (m acc w : ℕ) : ℕ := if m < acc + w then acc + w - m else acc + w

structure Carried (m sum x : ℕ) : Prop where
  pos : 0 < x
  le : x ≤ m
  modEq : x ≡ sum [MOD m]

namespace Carried

variable {m sum x y w : ℕ}

lemma start (h : 0 < m) : Carried m 0 m := ⟨h, le_rfl, Nat.modEq_zero_iff_dvd.mpr dvd_rfl⟩

lemma add (h : Carried m sum x) (hw : w ≤ m) : Carried m (sum + w) (carryAdd m x w) := by
  have hpos := h.pos
  have hle := h.le
  rw [carryAdd]
  split
  · next hcarry =>
    refine ⟨by omega, by omega, ?_⟩
    have hsub : x + w - m ≡ x + w [MOD m] := by
      rw [← Nat.ModEq.add_iff_right (Nat.modEq_zero_iff_dvd.mpr (dvd_refl m) : m ≡ 0 [MOD m])]
      rw [Nat.sub_add_cancel (by omega), Nat.add_zero]
    exact hsub.trans (h.modEq.add_right w)
  · exact ⟨by omega, by omega, h.modEq.add_right w⟩

lemma eq_iff (h : Carried m sum x) : x = m ↔ m ∣ sum := by
  rw [← h.modEq.dvd_iff dvd_rfl]
  refine ⟨fun he => he ▸ dvd_rfl, fun hd => le_antisymm h.le (Nat.le_of_dvd h.pos hd)⟩

lemma congr (h : Carried m sum x) {sum' : ℕ} (he : sum = sum') : Carried m sum' x := he ▸ h

lemma dvd_add_complement (h : Carried m sum x) : m ∣ sum + (m - x) := by
  have hle := h.le
  have hmod : sum + (m - x) ≡ x + (m - x) [MOD m] := (h.modEq.add_right (m - x)).symm
  rw [Nat.add_sub_cancel' hle] at hmod
  exact (hmod.dvd_iff dvd_rfl).mpr dvd_rfl

end Carried

end CourseArchive.Lib
