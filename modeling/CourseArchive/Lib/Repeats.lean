import Mathlib.Data.List.Dedup
import Mathlib.Data.Set.Insert

/-! Acts of which only the first one of its kind does anything. -/

namespace CourseArchive.Lib

variable {σ α : Type*} {f : σ → α → σ} {A D : Set α} {I : σ → Set α → Prop} {s : σ} {a : α} {as : List α}

structure Settling (f : σ → α → σ) (A : Set α) (I : σ → Set α → Prop) : Prop where
  first : ∀ {s D a}, I s D → a ∈ A → a ∉ D → I (f s a) (insert a D)
  again : ∀ {s D a}, I s D → a ∈ D → f s a = s

namespace Settling

lemma step (h : Settling f A I) (hI : I s D) (ha : a ∈ A) : ∃ D', I (f s a) D' ∧ D ⊆ D' ∧ a ∈ D' := by
  by_cases hd : a ∈ D
  · rw [h.again hI hd]
    exact ⟨D, hI, subset_rfl, hd⟩
  · exact ⟨insert a D, h.first hI ha hd, Set.subset_insert a D, Set.mem_insert a D⟩

lemma foldl_filter [DecidableEq α] (h : Settling f A I) (hI : I s D) (hd : a ∈ D) (ha : ∀ b ∈ as, b ∈ A) :
    (as.filter fun b => !b == a).foldl f s = as.foldl f s := by
  induction as generalizing s D with
  | nil => rfl
  | cons b as ih =>
    have hrest : ∀ c ∈ as, c ∈ A := fun c hc => ha c (List.mem_cons_of_mem b hc)
    by_cases hb : b = a
    · subst hb
      rw [List.filter_cons_of_neg (by simp), List.foldl_cons, h.again hI hd]
      exact ih hI hd hrest
    · obtain ⟨D', hI', hsub, -⟩ := h.step hI (ha b List.mem_cons_self)
      rw [List.filter_cons_of_pos (by simpa using hb), List.foldl_cons, List.foldl_cons]
      exact ih hI' (hsub hd) hrest

theorem foldl_eraseDups [DecidableEq α] (h : Settling f A I) (hI : I s D) (ha : ∀ a ∈ as, a ∈ A) :
    as.foldl f s = as.eraseDups.foldl f s := by
  induction hn : as.length using Nat.strong_induction_on generalizing as s D with
  | _ n ih =>
    cases as with
    | nil => rfl
    | cons a as =>
      obtain ⟨D', hI', -, hd⟩ := h.step hI (ha a List.mem_cons_self)
      have hrest : ∀ c ∈ as, c ∈ A := fun c hc => ha c (List.mem_cons_of_mem a hc)
      have hlen : (as.filter fun b => !b == a).length < n := by
        rw [← hn, List.length_cons]
        exact Nat.lt_succ_of_le (List.length_filter_le _ as)
      rw [List.eraseDups_cons, List.foldl_cons, List.foldl_cons, ← h.foldl_filter hI' hd hrest]
      exact ih _ hlen hI' (fun c hc => hrest c (List.mem_filter.mp hc).1) rfl

end Settling

end CourseArchive.Lib
