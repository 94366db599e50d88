import Mathlib.Tactic

/-! Lists whose elements are looked up by a key. -/

namespace CourseArchive.Lib

variable {α κ : Type*} [DecidableEq κ] {key : α → κ} {l : List α} {k k' : κ} {x : α}

lemma key_of_find? (h : l.find? (fun y => key y = k) = some x) :
    key x = k := of_decide_eq_true (List.find?_some h :)

lemma find?_key_iff (hn : (l.map key).Nodup) : l.find? (fun y => key y = k) = some x ↔ x ∈ l ∧ key x = k := by
  refine ⟨fun h => ⟨List.mem_of_find?_eq_some h, key_of_find? h⟩, ?_⟩
  rintro ⟨hx, rfl⟩
  have hsome : (l.find? fun y => key y = key x).isSome := List.find?_isSome.mpr ⟨x, hx, by simp⟩
  obtain ⟨y, hy⟩ := Option.isSome_iff_exists.mp hsome
  rwa [List.inj_on_of_nodup_map hn (List.mem_of_find?_eq_some hy) hx (key_of_find? hy)] at hy

lemma find?_key_eq_none : l.find? (fun y => key y = k) = none ↔ k ∉ l.map key := by
  simp only [List.find?_eq_none, decide_eq_true_eq, List.mem_map, not_exists, not_and]

lemma find?_key_append (key : α → κ) {l : List α} (h : key x ∉ l.map key) (k : κ) :
    (l ++ [x]).find? (fun y => key y = k) = if k = key x then some x else l.find? fun y => key y = k := by
  rw [List.find?_append]
  by_cases hk : k = key x
  · subst hk
    rw [if_pos rfl, find?_key_eq_none.mpr h]
    simp
  · rw [if_neg hk]
    have hx : [x].find? (fun y => decide (key y = k)) = none := by simpa using fun he : key x = k => hk he.symm
    rw [hx, Option.or_none]

lemma find?_key_modify (key : α → κ) {l : List α} {f : α → α} (hf : ∀ y, key (f y) = key y) (k : κ) :
    (l.map fun y => if key y = k' then f y else y).find? (fun y => key y = k) =
      if k = k' then (l.find? fun y => key y = k).map f else l.find? fun y => key y = k := by
  induction l with
  | nil => simp
  | cons y l ih =>
    have hkey : key (if key y = k' then f y else y) = key y := by
      split
      · exact hf y
      · rfl
    rw [List.map_cons, List.find?_cons, List.find?_cons, hkey]
    by_cases hy : key y = k
    · simp only [hy, decide_true]
      split <;> rfl
    · simp only [hy, decide_false]
      exact ih

lemma find?_key_remove (key : α → κ) {l : List α} (k : κ) :
    (l.filter fun y => key y ≠ k').find? (fun y => key y = k) =
    if k = k' then none else l.find? fun y => key y = k := by
  rw [List.find?_filter]
  by_cases hk : k = k'
  · subst hk
    rw [if_pos rfl, List.find?_eq_none]
    simp
  · rw [if_neg hk]
    congr 1
    funext y
    by_cases hy : key y = k
    · simp [hy, hk]
    · simp [hy]

end CourseArchive.Lib
