import CourseArchive.Lib.StdSort
import Mathlib.Data.List.Chain

/-! Natural merge sort: runs are taken as they come and merged in pairs. Stability determines the sorted list. -/

namespace CourseArchive.Lib

variable {α : Type} {less : α → α → Bool} {xs ys zs : List α} {a b c : α}

def noLater (less : α → α → Bool) (a b : α) : Bool := !less b a

def equivalent (less : α → α → Bool) (a b : α) : Bool := !less a b && !less b a

abbrev Ordered (less : α → α → Bool) (xs : List α) : Prop := xs.Pairwise fun a b => noLater less a b = true

def SameClasses (less : α → α → Bool) (xs ys : List α) : Prop :=
  ∀ c, xs.filter (equivalent less c) = ys.filter (equivalent less c)

namespace StrictWeakOrder

lemma asymm (h : StrictWeakOrder less) (hab : less a b = true) : less b a = false := by
  by_contra hba
  have hirr := h.trans a b a hab (by simpa using hba)
  simp [h.irrefl a] at hirr

lemma noLater_trans (h : StrictWeakOrder less) (a b c : α) (hab : noLater less a b = true)
    (hbc : noLater less b c = true) : noLater less a c = true := by
  simp only [noLater, Bool.not_eq_true'] at *
  by_contra hca
  rcases h.between c b a (by simpa using hca) with hcb | hba
  · simp [hbc] at hcb
  · simp [hab] at hba

lemma noLater_total (h : StrictWeakOrder less) (a b : α) : (noLater less a b || noLater less b a) = true := by
  cases hba : less b a
  · simp [noLater, hba]
  · simp [noLater, h.asymm hba]

lemma equivalent_self (h : StrictWeakOrder less) (a : α) : equivalent less a a = true := by
  simp [equivalent, h.irrefl a]

lemma less_of_less_of_noLater (h : StrictWeakOrder less) (hab : less a b = true) (hbc : noLater less b c = true) :
    less a c = true := by
  simp only [noLater, Bool.not_eq_true'] at hbc
  rcases h.between a c b hab with hac | hcb
  · exact hac
  · simp [hbc] at hcb

lemma equivalent_trans (h : StrictWeakOrder less) (hab : equivalent less a b = true)
    (hac : equivalent less a c = true) :
    equivalent less b c = true := by
  simp only [equivalent, Bool.and_eq_true, Bool.not_eq_true'] at *
  constructor
  · by_contra hbc
    rcases h.between b a c (by simpa using hbc) with hba | hac'
    · simp [hab.2] at hba
    · simp [hac.1] at hac'
  · by_contra hcb
    rcases h.between c a b (by simpa using hcb) with hca | hab'
    · simp [hac.2] at hca
    · simp [hab.1] at hab'

end StrictWeakOrder

lemma SameClasses.refl (less : α → α → Bool) (xs : List α) : SameClasses less xs xs := fun _ => rfl

lemma SameClasses.trans (h : SameClasses less xs ys) (h' : SameClasses less ys zs) : SameClasses less xs zs :=
  fun c => (h c).trans (h' c)

lemma SameClasses.append {xs' ys' : List α} (h : SameClasses less xs ys) (h' : SameClasses less xs' ys') :
    SameClasses less (xs ++ xs') (ys ++ ys') := fun c => by rw [List.filter_append, List.filter_append, h c, h' c]

lemma Ordered.head_noLater (h : StrictWeakOrder less) (hx : Ordered less (a :: xs)) (hb : b ∈ a :: xs) :
    noLater less a b = true := by
  rcases List.mem_cons.mp hb with rfl | hb
  · simp [noLater, h.irrefl]
  · exact (List.pairwise_cons.mp hx).1 b hb

lemma eq_of_sameClasses (h : StrictWeakOrder less) (hx : Ordered less xs) (hy : Ordered less ys)
    (hs : SameClasses less xs ys) : xs = ys := by
  -- two ordered lists with the same classes are equal: their heads begin the same class
  induction xs generalizing ys with
  | nil =>
    cases ys with
    | nil => rfl
    | cons y ys => simpa [h.equivalent_self y] using hs y
  | cons x xs ih =>
    have hxmem : x ∈ ys := by
      have hmem : x ∈ ys.filter (equivalent less x) := by
        rw [← hs x]
        simp [h.equivalent_self x]
      exact (List.mem_filter.mp hmem).1
    cases ys with
    | nil => simp at hxmem
    | cons y ys =>
      have hymem : y ∈ x :: xs := by
        have hmem : y ∈ (x :: xs).filter (equivalent less y) := by
          rw [hs y]
          simp [h.equivalent_self y]
        exact (List.mem_filter.mp hmem).1
      have hxy : equivalent less x y = true := by
        have hle := hx.head_noLater h hymem
        have hge := hy.head_noLater h hxmem
        simp only [noLater, Bool.not_eq_true'] at hle hge
        simp [equivalent, hle, hge]
      have hhead : x = y := by
        have hclass := hs x
        rw [List.filter_cons_of_pos (h.equivalent_self x), List.filter_cons_of_pos hxy] at hclass
        exact (List.cons.inj hclass).1
      subst hhead
      refine congrArg (x :: ·) (ih (List.pairwise_cons.mp hx).2 (List.pairwise_cons.mp hy).2 fun c => ?_)
      have hclass := hs c
      rw [List.filter_cons, List.filter_cons] at hclass
      split at hclass
      · exact (List.cons.inj hclass).2
      · exact hclass

lemma sameClasses_merge (h : StrictWeakOrder less) (hx : Ordered less xs) (hy : Ordered less ys) :
    SameClasses less (xs.merge ys (noLater less)) (xs ++ ys) := by
  intro c
  induction xs generalizing ys with
  | nil => simp
  | cons x xs ihx =>
    induction ys with
    | nil => simp
    | cons y ys ihy =>
      rw [List.cons_merge_cons]
      have hyt := (List.pairwise_cons.mp hy).2
      split
      · rw [List.filter_cons, ihx (List.pairwise_cons.mp hx).2 hy, List.cons_append, List.filter_cons]
      · next hlater =>
        rw [List.filter_cons, ihy hyt]
        split
        · next hc =>
          -- what stays in the first list is later than `y`, so none of it is in the class of `y`
          have hless : less y x = true := by simpa [noLater] using hlater
          have hnone : (x :: xs).filter (equivalent less c) = [] := by
            refine List.filter_eq_nil_iff.mpr fun z hz hcz => ?_
            have hyz := h.less_of_less_of_noLater hless (hx.head_noLater h hz)
            have heq := h.equivalent_trans hc hcz
            simp [equivalent, hyz] at heq
          rw [List.filter_append, List.filter_append, hnone, List.filter_cons_of_pos hc]
          simp
        · next hc => simp [List.filter_append, List.filter_cons, hc]

lemma ordered_merge (h : StrictWeakOrder less) (hx : Ordered less xs) (hy : Ordered less ys) :
    Ordered less (xs.merge ys (noLater less)) :=
  List.pairwise_merge h.noLater_trans h.noLater_total _ _ hx hy

lemma ordered_mergeSort (h : StrictWeakOrder less) (xs : List α) : Ordered less (xs.mergeSort (noLater less)) :=
  List.pairwise_mergeSort h.noLater_trans h.noLater_total xs

lemma sameClasses_mergeSort (h : StrictWeakOrder less) (xs : List α) :
    SameClasses less (xs.mergeSort (noLater less)) xs := by
  intro c
  have hordered : (xs.filter (equivalent less c)).Pairwise fun a b => noLater less a b = true := by
    refine List.Pairwise.imp_of_mem (R := fun _ _ => True) ?_ (List.pairwise_of_forall fun _ _ => trivial)
    intro a b ha hb _
    have heq := h.equivalent_trans (List.mem_filter.mp ha).2 (List.mem_filter.mp hb).2
    simp only [equivalent, Bool.and_eq_true, Bool.not_eq_true'] at heq
    simp [noLater, heq.2]
  have hsub : (xs.filter (equivalent less c)).Sublist (xs.mergeSort (noLater less)) :=
    List.sublist_mergeSort h.noLater_trans h.noLater_total hordered List.filter_sublist
  have hsub' := hsub.filter (equivalent less c)
  rw [List.filter_filter] at hsub'
  simp only [Bool.and_self] at hsub'
  refine (hsub'.eq_of_length ?_).symm
  exact (((List.mergeSort_perm xs (noLater less)).filter _).length_eq).symm

lemma eq_mergeSort (h : StrictWeakOrder less) (hy : Ordered less ys) (hs : SameClasses less ys xs) :
    ys = xs.mergeSort (noLater less) :=
  eq_of_sameClasses h hy (ordered_mergeSort h xs) (hs.trans fun c => (sameClasses_mergeSort h xs c).symm)

/-! One pass over the runs. -/

def takeRun (less : α → α → Bool) (a : α) : List α → List α × List α
  | [] => ([a], [])
  | b :: xs => if less b a then ([a], b :: xs) else ((takeRun less b xs).map (a :: ·) id)

def descents (less : α → α → Bool) : List α → ℕ
  | a :: b :: xs => (if less b a then 1 else 0) + descents less (b :: xs)
  | _ => 0

@[simp] lemma takeRun_nil : takeRun less a [] = ([a], []) := rfl

lemma takeRun_cons :
    takeRun less a (b :: xs) = if less b a then ([a], b :: xs) else (takeRun less b xs).map (a :: ·) id := rfl

@[simp] lemma descents_nil : descents less [] = 0 := rfl

@[simp] lemma descents_singleton : descents less [a] = 0 := rfl

@[simp] lemma descents_cons_cons :
    descents less (a :: b :: xs) = (if less b a then 1 else 0) + descents less (b :: xs) := rfl

lemma takeRun_append (less : α → α → Bool) (a : α) (xs : List α) :
    (takeRun less a xs).1 ++ (takeRun less a xs).2 = a :: xs := by
  induction xs generalizing a with
  | nil => rfl
  | cons b xs ih =>
    rw [takeRun_cons]
    split
    · rfl
    · simp [ih b]

lemma takeRun_ne_nil (less : α → α → Bool) (a : α) (xs : List α) : (takeRun less a xs).1 ≠ [] := by
  cases xs with
  | nil => simp
  | cons b xs =>
    rw [takeRun_cons]
    split <;> simp

lemma takeRun_length (less : α → α → Bool) (a : α) (xs : List α) : (takeRun less a xs).2.length ≤ xs.length := by
  have hlen := congrArg List.length (takeRun_append less a xs)
  have hpos := List.length_pos_of_ne_nil (takeRun_ne_nil less a xs)
  simp only [List.length_append, List.length_cons] at hlen
  omega

def mergePass (less : α → α → Bool) : List α → List α × ℕ
  | [] => ([], 0)
  | a :: xs =>
    match _h : (takeRun less a xs).2 with
    | [] => ((takeRun less a xs).1, 1)
    | b :: ys =>
      let rest := mergePass less (takeRun less b ys).2
      ((takeRun less a xs).1.merge (takeRun less b ys).1 (noLater less) ++ rest.1, rest.2 + 1)
termination_by xs => xs.length
decreasing_by
  have h₁ := takeRun_length less a xs
  have h₂ := takeRun_length less b ys
  simp only [_h, List.length_cons] at h₁ ⊢
  omega

lemma descents_run (less : α → α → Bool) (a : α) (xs : List α) : descents less (takeRun less a xs).1 = 0 := by
  induction xs generalizing a with
  | nil => rfl
  | cons b xs ih =>
    rw [takeRun_cons]
    split
    · rfl
    · next hab =>
      have hb := ih b
      cases xs with
      | nil => simp [hab]
      | cons c xs =>
        simp only [takeRun_cons] at hb ⊢
        split at hb
        · simp [*]
        · simp_all

lemma descents_eq_zero (h : StrictWeakOrder less) (hd : descents less xs = 0) : Ordered less xs := by
  induction xs with
  | nil => exact List.Pairwise.nil
  | cons a xs ih =>
    cases xs with
    | nil => exact List.pairwise_singleton _ _
    | cons b xs =>
      simp only [descents_cons_cons, Nat.add_eq_zero_iff, ite_eq_right_iff, one_ne_zero, imp_false,
        Bool.not_eq_true] at hd
      have hb := ih hd.2
      refine List.pairwise_cons.mpr ⟨fun c hc => ?_, hb⟩
      exact h.noLater_trans a b c (by simp [noLater, hd.1]) (hb.head_noLater h hc)

lemma ordered_takeRun (h : StrictWeakOrder less) (a : α) (xs : List α) : Ordered less (takeRun less a xs).1 :=
  descents_eq_zero h (descents_run less a xs)

lemma descents_le_length (less : α → α → Bool) (xs : List α) : descents less xs ≤ xs.length := by
  induction xs with
  | nil => exact le_rfl
  | cons a xs ih =>
    cases xs with
    | nil => exact Nat.zero_le _
    | cons b xs =>
      simp only [descents_cons_cons, List.length_cons] at ih ⊢
      split <;> omega

lemma Ordered.descents_eq (hx : Ordered less xs) : descents less xs = 0 := by
  induction xs with
  | nil => rfl
  | cons a xs ih =>
    cases xs with
    | nil => rfl
    | cons b xs =>
      obtain ⟨ha, hb⟩ := List.pairwise_cons.mp hx
      have hab : less b a = false := by simpa [noLater] using ha b (by simp)
      simp [hab, ih hb]

lemma descents_append_le (less : α → α → Bool) (xs ys : List α) :
    descents less (xs ++ ys) ≤ descents less xs + descents less ys + 1 := by
  induction xs with
  | nil => simp
  | cons a xs ih =>
    cases xs with
    | nil =>
      cases ys with
      | nil => simp
      | cons b ys =>
        simp only [List.cons_append, List.nil_append, descents_cons_cons, descents_singleton]
        split <;> omega
    | cons b xs =>
      simp only [List.cons_append, descents_cons_cons] at ih ⊢
      omega

lemma descents_takeRun (less : α → α → Bool) (a : α) (xs : List α) :
    descents less (a :: xs) =
      if (takeRun less a xs).2 = [] then 0 else descents less (takeRun less a xs).2 + 1 := by
  induction xs generalizing a with
  | nil => rfl
  | cons b xs ih =>
    rw [takeRun_cons, descents_cons_cons]
    split
    · next hab => simp [add_comm]
    · next hab => simpa using ih b

lemma mergePass_last (h : (takeRun less a xs).2 = []) : mergePass less (a :: xs) = ((takeRun less a xs).1, 1) := by
  rw [mergePass]
  split
  · rfl
  · next hne => simp [h] at hne

lemma mergePass_pair (h : (takeRun less a xs).2 = b :: ys) : mergePass less (a :: xs) =
    ((takeRun less a xs).1.merge (takeRun less b ys).1 (noLater less) ++ (mergePass less (takeRun less b ys).2).1,
      (mergePass less (takeRun less b ys).2).2 + 1) := by
  rw [mergePass]
  split
  · next hnil => simp [h] at hnil
  · next b' ys' hcons =>
    obtain ⟨rfl, rfl⟩ := List.cons.inj (h.symm.trans hcons)
    rfl

lemma mergePass_length (less : α → α → Bool) (xs : List α) : (mergePass less xs).1.length = xs.length := by
  induction hn : xs.length using Nat.strong_induction_on generalizing xs with
  | _ n ih =>
    cases xs with
    | nil => simpa [mergePass] using hn
    | cons a xs =>
      have hsplit := congrArg List.length (takeRun_append less a xs)
      cases hrest : (takeRun less a xs).2 with
      | nil =>
        rw [mergePass_last hrest]
        simpa [hrest, hn] using hsplit
      | cons b ys =>
        have hsplit' := congrArg List.length (takeRun_append less b ys)
        have hpos := List.length_pos_of_ne_nil (takeRun_ne_nil less a xs)
        rw [hrest] at hsplit
        simp only [List.length_append, List.length_cons] at hn hsplit hsplit'
        rw [mergePass_pair hrest, List.length_append, List.length_merge, ih _ (by omega) _ rfl]
        omega

structure PassResult (less : α → α → Bool) (xs : List α) (r : List α × ℕ) : Prop where
  classes : SameClasses less r.1 xs
  fewer : descents less r.1 ≤ r.2 - 1
  count : 2 * r.2 ≤ descents less xs + 2

lemma mergePass_result (h : StrictWeakOrder less) (xs : List α) : PassResult less xs (mergePass less xs) := by
  induction hn : xs.length using Nat.strong_induction_on generalizing xs with
  | _ n ih =>
    cases xs with
    | nil => exact ⟨by simpa [mergePass] using SameClasses.refl less [], by simp [mergePass], by simp [mergePass]⟩
    | cons a xs =>
      have hsplit := takeRun_append less a xs
      have hdesc := descents_takeRun less a xs
      have hrun := ordered_takeRun h a xs
      cases hrest : (takeRun less a xs).2 with
      | nil =>
        rw [hrest, List.append_nil] at hsplit
        rw [mergePass_last hrest]
        refine ⟨?_, ?_, by simp⟩
        · rw [hsplit]
          exact SameClasses.refl less _
        · simp [hrun.descents_eq]
      | cons b ys =>
        have hrun' := ordered_takeRun h b ys
        have hsplit' := takeRun_append less b ys
        have hdesc' := descents_takeRun less b ys
        have hlen := takeRun_length less a xs
        have hlen' := takeRun_length less b ys
        rw [hrest] at hsplit hdesc hlen
        simp only [List.length_cons, reduceCtorEq, if_false] at hn hlen hdesc
        obtain ⟨hclasses, hfewer, hcount⟩ := ih _ (by omega) (takeRun less b ys).2 rfl
        rw [mergePass_pair hrest]
        refine ⟨?_, ?_, ?_⟩
        · have hmerged := (sameClasses_merge h hrun hrun').append hclasses
          rwa [List.append_assoc, hsplit', hsplit] at hmerged
        · have hjoin := descents_append_le less ((takeRun less a xs).1.merge (takeRun less b ys).1 (noLater less))
            (mergePass less (takeRun less b ys).2).1
          rw [(ordered_merge h hrun hrun').descents_eq] at hjoin
          cases hy : (takeRun less b ys).2 with
          | nil =>
            simp only [hy, mergePass, List.append_nil] at *
            simp [(ordered_merge h hrun hrun').descents_eq]
          | cons c zs =>
            have hpos : 0 < (mergePass less (c :: zs)).2 := by
              rw [mergePass]
              split <;> simp
            rw [hy] at hjoin hfewer
            simp only
            omega
        · cases hy : (takeRun less b ys).2 with
          | nil => simp [mergePass]
          | cons c zs =>
            rw [hy] at hcount hdesc'
            simp only [reduceCtorEq, if_false] at hdesc'
            simp only
            omega

end CourseArchive.Lib
