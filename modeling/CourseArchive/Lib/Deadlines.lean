import Mathlib.Data.List.Sort
import Mathlib.Tactic

/-! Queues in the order of a key, in which entries with the same key stay in the order of their arrival. -/

namespace CourseArchive.Lib

variable {α K : Type*} [LinearOrder K] {key key' : α → K} {a b : α} {l : List α} {k : K}

def insertLast (key : α → K) (a : α) (l : List α) : List α := l.orderedInsert (fun a b => key a < key b) a

lemma insertLast_cons (key : α → K) (a b : α) (l : List α) :
    insertLast key a (b :: l) = if key a < key b then a :: b :: l else b :: insertLast key a l := rfl

lemma insertLast_perm (key : α → K) (a : α) (l : List α) : (insertLast key a l).Perm (a :: l) :=
  List.perm_orderedInsert _ a l

lemma mem_insertLast : b ∈ insertLast key a l ↔ b = a ∨ b ∈ l := List.mem_orderedInsert _

lemma pairwise_insertLast (h : l.Pairwise fun b c => key b ≤ key c) :
    (insertLast key a l).Pairwise fun b c => key b ≤ key c := by
  induction l with
  | nil => exact List.pairwise_singleton _ _
  | cons b l ih =>
    obtain ⟨hb, hl⟩ := List.pairwise_cons.mp h
    rw [insertLast_cons]
    split
    · next hlt =>
      refine List.pairwise_cons.mpr ⟨fun c hc => ?_, h⟩
      rcases List.mem_cons.mp hc with rfl | hc
      · exact hlt.le
      · exact hlt.le.trans (hb c hc)
    · next hle =>
      refine List.pairwise_cons.mpr ⟨fun c hc => ?_, ih hl⟩
      rcases mem_insertLast.mp hc with rfl | hc
      · exact not_lt.mp hle
      · exact hb c hc

lemma filter_insertLast (h : l.Pairwise fun b c => key b ≤ key c) (k : K) :
    (insertLast key a l).filter (fun b => key b = k) =
      l.filter (fun b => key b = k) ++ if key a = k then [a] else [] := by
  induction l with
  | nil => simp [insertLast, List.filter_cons]
  | cons b l ih =>
    obtain ⟨hb, hl⟩ := List.pairwise_cons.mp h
    rw [insertLast_cons]
    split
    · next hlt =>
      by_cases hk : key a = k
      · have hnone : (b :: l).filter (fun c => key c = k) = [] := by
          refine List.filter_eq_nil_iff.mpr fun c hc => ?_
          rcases List.mem_cons.mp hc with rfl | hc
          · simpa using (hk ▸ hlt).ne'
          · simpa using (hk ▸ hlt.trans_le (hb c hc)).ne'
        rw [List.filter_cons_of_pos (by simpa using hk), hnone, if_pos hk, List.nil_append]
      · rw [List.filter_cons_of_neg (by simpa using hk), if_neg hk, List.append_nil]
    · by_cases hk : key b = k
      · rw [List.filter_cons_of_pos (by simpa using hk), List.filter_cons_of_pos (by simpa using hk), ih hl,
          List.cons_append]
      · rw [List.filter_cons_of_neg (by simpa using hk), List.filter_cons_of_neg (by simpa using hk), ih hl]

end CourseArchive.Lib
