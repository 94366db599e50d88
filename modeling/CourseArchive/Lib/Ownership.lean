import CourseArchive.Lib.Extents

/-! Places that are marked as used while somebody owns them. -/

namespace CourseArchive.Lib

structure Owns {T α : Type*} (places : T → List α) (used : α → Bool) : Prop where
  used_iff : ∀ a, used a = true ↔ ∃ t, a ∈ places t
  nodup : ∀ t, (places t).Nodup
  disjoint : ∀ t u, t ≠ u → (places t).Disjoint (places u)

namespace Owns

variable {T α : Type*} {places : T → List α} {used : α → Bool} {t : T} {a : α} {xs : List α}

lemma used_of_mem (h : Owns places used) (ha : a ∈ places t) : used a = true := (h.used_iff a).mpr ⟨t, ha⟩

lemma owner_unique (h : Owns places used) {u : T} (ht : a ∈ places t) (hu : a ∈ places u) : t = u := by
  by_contra hne
  exact h.disjoint t u hne ht hu

lemma start : Owns (fun _ : T => ([] : List α)) fun _ => false := ⟨by simp, by simp, by simp⟩

variable [DecidableEq T]

lemma perm (h : Owns places used) (hp : (places t).Perm xs) : Owns (Function.update places t xs) used := by
  have hmem : ∀ u a, a ∈ Function.update places t xs u ↔ a ∈ places u := by
    intro u a
    rcases eq_or_ne u t with rfl | hne
    · rw [Function.update_self, hp.mem_iff]
    · rw [Function.update_of_ne hne]
  refine ⟨fun a => by simp only [h.used_iff a, hmem], fun u => ?_, fun u v hne a ha ha' => ?_⟩
  · rcases eq_or_ne u t with rfl | hne
    · rw [Function.update_self]
      exact hp.nodup_iff.mp (h.nodup u)
    · rw [Function.update_of_ne hne]
      exact h.nodup u
  · exact h.disjoint u v hne ((hmem u a).mp ha) ((hmem v a).mp ha')

variable [DecidableEq α]

lemma take (h : Owns places used) (ha : used a = false) (hp : xs.Perm (a :: places t)) :
    Owns (Function.update places t xs) (Function.update used a true) := by
  have hfree : ∀ u, a ∉ places u := fun u hu => by simp [h.used_of_mem hu] at ha
  have hmem : ∀ u b, b ∈ Function.update places t xs u ↔ (u = t ∧ b = a) ∨ b ∈ places u := by
    intro u b
    rcases eq_or_ne u t with rfl | hne
    · simp [hp.mem_iff]
    · simp [hne]
  refine ⟨fun b => ?_, fun u => ?_, fun u v hne b hb hb' => ?_⟩
  · simp only [hmem]
    rcases eq_or_ne b a with rfl | hb
    · simp
    · simp [hb, h.used_iff b]
  · rcases eq_or_ne u t with rfl | hne
    · rw [Function.update_self, hp.nodup_iff]
      exact List.nodup_cons.mpr ⟨hfree u, h.nodup u⟩
    · rw [Function.update_of_ne hne]
      exact h.nodup u
  · rcases (hmem u b).mp hb with ⟨rfl, rfl⟩ | hbu
    · rcases (hmem v b).mp hb' with ⟨rfl, -⟩ | hbv
      · exact hne rfl
      · exact hfree v hbv
    · rcases (hmem v b).mp hb' with ⟨-, rfl⟩ | hbv
      · exact hfree u hbu
      · exact h.disjoint u v hne hbu hbv

lemma give (h : Owns places used) (hp : (places t).Perm (a :: xs)) :
    Owns (Function.update places t xs) (Function.update used a false) := by
  have hnodup := hp.nodup_iff.mp (h.nodup t)
  have hat : a ∈ places t := hp.mem_iff.mpr List.mem_cons_self
  have hmem : ∀ u b, b ∈ Function.update places t xs u ↔ b ≠ a ∧ b ∈ places u := by
    intro u b
    rcases eq_or_ne u t with rfl | hne
    · rw [Function.update_self, hp.mem_iff, List.mem_cons]
      refine ⟨fun hb => ⟨?_, .inr hb⟩, fun hb => hb.2.resolve_left hb.1⟩
      rintro rfl
      exact (List.nodup_cons.mp hnodup).1 hb
    · rw [Function.update_of_ne hne]
      refine ⟨fun hb => ⟨?_, hb⟩, And.right⟩
      rintro rfl
      exact h.disjoint u t hne hb hat
  refine ⟨fun b => ?_, fun u => ?_, fun u v hne b hb hb' => ?_⟩
  · simp only [hmem]
    rcases eq_or_ne b a with rfl | hb
    · simp
    · simp [hb, h.used_iff b]
  · rcases eq_or_ne u t with rfl | hne
    · rw [Function.update_self]
      exact (List.nodup_cons.mp hnodup).2
    · rw [Function.update_of_ne hne]
      exact h.nodup u
  · exact h.disjoint u v hne ((hmem u b).mp hb).2 ((hmem v b).mp hb').2

lemma transfer (h : Owns places used) {u : T} {ys : List α} (hne : t ≠ u) (hp : (places t).Perm (xs ++ ys)) :
    Owns (Function.update (Function.update places t ys) u (xs ++ places u)) used := by
  have hnodup := List.nodup_append.mp (hp.nodup_iff.mp (h.nodup t))
  have hsub : ∀ b ∈ xs, b ∈ places t := fun b hb => hp.mem_iff.mpr (List.mem_append_left ys hb)
  have hmem : ∀ v b, b ∈ Function.update (Function.update places t ys) u (xs ++ places u) v ↔
      (v = u ∧ b ∈ xs) ∨ (b ∈ places v ∧ (v = t → b ∉ xs)) := by
    intro v b
    rcases eq_or_ne v u with rfl | hvu
    · simp [hne.symm]
    · rcases eq_or_ne v t with rfl | hvt
      · simp only [Function.update_of_ne hvu, Function.update_self, hvu, false_and, false_or, hp.mem_iff,
          List.mem_append, true_implies]
        exact ⟨fun hb => ⟨.inr hb, fun hx => hnodup.2.2 b hx b hb rfl⟩, fun hb => hb.1.resolve_left hb.2⟩
      · simp [hvu, hvt]
  refine ⟨fun b => ?_, fun v => ?_, fun v w hvw b hb hb' => ?_⟩
  · simp only [hmem, h.used_iff b]
    constructor
    · rintro ⟨v, hv⟩
      by_cases hx : b ∈ xs
      · exact ⟨u, .inl ⟨rfl, hx⟩⟩
      · exact ⟨v, .inr ⟨hv, fun _ => hx⟩⟩
    · rintro ⟨v, ⟨-, hx⟩ | ⟨hv, -⟩⟩
      · exact ⟨t, hsub b hx⟩
      · exact ⟨v, hv⟩
  · rcases eq_or_ne v u with rfl | hvu
    · rw [Function.update_self]
      exact List.nodup_append.mpr ⟨hnodup.1, h.nodup v,
        fun b hb c hc hbc => h.disjoint t v hne (hsub b hb) (hbc ▸ hc)⟩
    · rcases eq_or_ne v t with rfl | hvt
      · rw [Function.update_of_ne hvu, Function.update_self]
        exact hnodup.2.1
      · rw [Function.update_of_ne hvu, Function.update_of_ne hvt]
        exact h.nodup v
  · rcases (hmem v b).mp hb with ⟨rfl, hx⟩ | ⟨hv, hx⟩
    · rcases (hmem w b).mp hb' with ⟨rfl, -⟩ | ⟨hw, hx'⟩
      · exact hvw rfl
      · exact hx' (h.owner_unique hw (hsub b hx)) hx
    · rcases (hmem w b).mp hb' with ⟨rfl, hx'⟩ | ⟨hw, -⟩
      · exact hx (h.owner_unique hv (hsub b hx')) hx'
      · exact h.disjoint v w hvw hv hw

end Owns

namespace Extent

def places (x : Extent) : List ℕ := List.range' x.start x.cnt

lemma mem_places {x : Extent} {i : ℕ} : i ∈ x.places ↔ x.Has i := by
  simp [places, Has]

lemma places_grow (idx k : ℕ) : (Extent.mk idx (k + 1)).places = (Extent.mk idx k).places ++ [idx + k] := by
  simp [places, List.range'_concat]

lemma places_shrink {idx cnt k : ℕ} (h : k < cnt) :
    (Extent.mk (idx + k) (cnt - k)).places = (idx + k) :: (Extent.mk (idx + (k + 1)) (cnt - (k + 1))).places := by
  obtain ⟨j, rfl⟩ := Nat.exists_eq_add_of_lt h
  rw [places, places,
    show k + j + 1 - k = j + 1 by omega, show k + j + 1 - (k + 1) = j by omega, List.range'_succ, Nat.add_assoc]

end Extent

end CourseArchive.Lib
