import CourseArchive.Lib.StdSort
import Mathlib.Data.List.Lex

/-! Lists compared at any place where the first one is smaller, instead of at the first place where they differ. -/

namespace CourseArchive.Lib

variable {α : Type*} [LinearOrder α] {xs ys : List α}

def anyLess : List α → List α → Bool
  | x :: xs, y :: ys => x < y || anyLess xs ys
  | _, _ => false

def Comparable (xs ys : List α) : Prop := List.Forall₂ (· ≤ ·) xs ys ∨ List.Forall₂ (· ≤ ·) ys xs

instance (xs ys : List α) : Decidable (Comparable xs ys) := inferInstanceAs (Decidable (_ ∨ _))

lemma anyLess_eq_false (h : xs.length = ys.length) : anyLess xs ys = false ↔ List.Forall₂ (· ≤ ·) ys xs := by
  induction xs generalizing ys with
  | nil =>
    obtain rfl := List.eq_nil_of_length_eq_zero h.symm
    simp [anyLess]
  | cons x xs ih =>
    obtain ⟨y, ys, rfl⟩ := List.exists_cons_of_length_eq_add_one h.symm
    rw [anyLess, Bool.or_eq_false_iff, decide_eq_false_iff_not, not_lt, List.forall₂_cons, ih (by simpa using h)]

lemma le_of_forall₂ (h : List.Forall₂ (· ≤ ·) xs ys) : xs ≤ ys := by
  induction h with
  | nil => exact le_rfl
  | @cons x y xs ys hxy _ ih =>
    rcases hxy.lt_or_eq with hlt | rfl
    · exact (List.cons_lt_cons_iff.mpr (.inl hlt)).le
    · exact not_lt.mp fun hlt =>
        absurd ih (not_le_of_gt ((List.cons_lt_cons_iff.mp hlt).resolve_left (lt_irrefl x)).2)

lemma anyLess_of_lt (h : xs.length = ys.length) (hlt : xs < ys) : anyLess xs ys = true := by
  by_contra hn
  rw [Bool.not_eq_true, anyLess_eq_false h] at hn
  exact absurd (le_of_forall₂ hn) (not_le_of_gt hlt)

lemma comparable_iff (h : xs.length = ys.length) :
    Comparable xs ys ↔ anyLess xs ys = false ∨ anyLess ys xs = false := by
  rw [anyLess_eq_false h, anyLess_eq_false h.symm, Comparable, or_comm]

lemma Comparable.anyLess_iff (hc : Comparable xs ys) (h : xs.length = ys.length) :
    anyLess xs ys = true ↔ xs < ys := by
  refine ⟨fun hany => ?_, anyLess_of_lt h⟩
  rcases lt_trichotomy xs ys with hlt | rfl | hgt
  · exact hlt
  · rw [(anyLess_eq_false rfl).mpr (List.forall₂_refl xs)] at hany
    cases hany
  · have hback := anyLess_of_lt h.symm hgt
    rcases (comparable_iff h).mp hc with hf | hf
    · rw [hf] at hany
      cases hany
    · rw [hf] at hback
      cases hback

end CourseArchive.Lib
