import CourseArchive.PintOS.Library.ListSpecs

/-! `list_sort` is a stable merge sort: run by run it does to the links what the passes of a natural merge sort do
to a list, and none of its assertions fails. -/

namespace CourseArchive.PintOS.Library

open Lib

variable {h : Links ℕ} {L : Finset ListHeader} {f : ListHeader → List ℕ} {l : ListHeader} {ps ms rs as bs : List ℕ}
  {a e turns : ℕ} {less : ℕ → ℕ → Bool}

namespace IsList

lemma at_append_eq_iff (hl : IsList h l (ps ++ ms ++ rs)) : l.at (ms ++ rs) = l.at rs ↔ ms = [] := by
  cases ms with
  | nil => simp
  | cons m ms =>
    obtain ⟨xs, ys, hsplit⟩ := l.nodes_split ps rs
    have hnd := hl.nodup
    rw [hsplit] at hnd
    simp only [List.cons_append, ListHeader.at_cons, reduceCtorEq, iff_false]
    rintro rfl
    simp [List.nodup_append] at hnd

lemma isSorted (hl : IsList h l (ps ++ ms ++ rs)) (ht : ms.length < turns) :
    Returns (isSorted less turns (l.at (ms ++ rs)) (l.at rs)) h fun r h' =>
      r = decide (descents less ms = 0) ∧ h' = h := by
  cases ms with
  | nil => exact ⟨true, h, by simp [Library.isSorted, pure_run], rfl, rfl⟩
  | cons m ms =>
    have hne : ¬l.at (m :: ms ++ rs) = l.at rs := hl.at_append_eq_iff.not.mpr (List.cons_ne_nil m ms)
    rw [Library.isSorted, if_neg hne]
    refine Returns.loop
      (I := fun n (x : ℕ) s => s = h ∧ ∃ qs ts, ps ++ m :: ms ++ rs = qs ++ x :: ts ++ rs ∧ ts.length = n ∧
        descents less (m :: ms) = descents less (x :: ts)) ?_
      ⟨rfl, ps, ms, rfl, rfl, rfl⟩ ((Nat.lt_succ_self _).trans ht)
    rintro n x s ⟨rfl, qs, ts, hsplit, rfl, hdesc⟩
    rw [hsplit] at hl
    have hx : IsList s l (qs ++ x :: (ts ++ rs)) := by simpa using hl
    have hcur : IsList s l ((qs ++ [x]) ++ ts ++ rs) := by simpa using hl
    refine Returns.after hx.listNext_run (Returns.ite (fun hend => ?_) fun hend => ?_)
    · have hts := hcur.at_append_eq_iff.mp hend
      subst hts
      exact Returns.pure ⟨by simp [hdesc, descents], rfl⟩
    · cases ts with
      | nil => exact absurd rfl hend
      | cons y ts =>
        have hprev : IsList s l ((qs ++ [x]) ++ (y :: ts ++ rs)) := by simpa using hl
        have hrun := hprev.listPrev_run
        rw [ListHeader.before_concat] at hrun
        refine Returns.after hrun (Returns.ite (fun hless => ?_) fun hless => ?_)
        · simp only [List.cons_append, ListHeader.at_cons] at hless
          exact Returns.pure ⟨by simp [hdesc, descents, hless], rfl⟩
        · simp only [List.cons_append, ListHeader.at_cons] at hless ⊢
          exact Returns.pure
            ⟨ts.length, by simp, rfl, qs ++ [x], ts, by simp [hsplit], rfl, by simp [hdesc, descents, hless]⟩

lemma findEndOfRun (hl : IsList h l (ps ++ a :: rs)) (ht : rs.length < turns) :
    Returns (findEndOfRun less turns a l.tail) h fun r h' => r = l.at (takeRun less a rs).2 ∧ h' = h := by
  have ha : decide (a ≠ 0) = true := by
    have hne : l.at (a :: rs) ≠ 0 := hl.at_ne_zero
    simpa using hne
  have htail : decide (l.tail ≠ 0) = true := by
    have hne : l.tail ≠ 0 := hl.ne_zero (by simp [ListHeader.nodes])
    simpa using hne
  have hne : decide (a ≠ l.tail) = true := by
    have hiff := hl.at_eq_tail_iff
    simpa using hiff.not.mpr (List.cons_ne_nil a rs)
  refine Returns.after (assert_run ha)
    (Returns.after (assert_run htail) (Returns.after (assert_run hne) (Returns.loop
    (I := fun n (x : ℕ) s => s = h ∧ ∃ qs ts, ps ++ a :: rs = qs ++ x :: ts ∧ ts.length = n ∧
      (takeRun less a rs).2 = (takeRun less x ts).2) ?_
    ⟨rfl, ps, rs, rfl, rfl, rfl⟩ ht)))
  rintro n x s ⟨rfl, qs, ts, hsplit, rfl, hrun⟩
  rw [hsplit] at hl
  have hcur : IsList s l ((qs ++ [x]) ++ ts) := by simpa using hl
  refine Returns.after hl.listNext_run (Returns.ite (fun hend => ?_) fun hend => ?_)
  · have hts := hcur.at_eq_tail_iff.mp hend
    subst hts
    exact Returns.pure ⟨by simp [hrun, takeRun], rfl⟩
  · cases ts with
    | nil => exact absurd rfl hend
    | cons y ts =>
      have hprev := hcur.listPrev_run
      rw [ListHeader.before_concat] at hprev
      refine Returns.after hprev (Returns.ite (fun hless => ?_) fun hless => ?_)
      · simp only [ListHeader.at_cons] at hless
        exact Returns.pure ⟨by simp [hrun, takeRun, hless], rfl⟩
      · simp only [ListHeader.at_cons] at hless ⊢
        exact Returns.pure
          ⟨ts.length, by simp, rfl, qs ++ [x], ts, by simp [hsplit], rfl, by simp [hrun, takeRun, hless]⟩

end IsList

namespace Holds

lemma inplaceMerge (hh : Holds h L f) (hl : l ∈ L) (hf : f l = ps ++ as ++ bs ++ rs)
    (hda : descents less as = 0) (hdb : descents less bs = 0) (ht : as.length + bs.length < turns) :
    Returns (inplaceMerge less turns (l.at (as ++ bs ++ rs)) (l.at (bs ++ rs)) (l.at rs)) h fun _ h' =>
      Holds h' L (Function.update f l (ps ++ as.merge bs (noLater less) ++ rs)) := by
  have hisl := hh.isList l hl
  rw [hf] at hisl
  have h₀ : IsList h l (ps ++ (as ++ bs ++ rs)) := by simpa using hisl
  have h₁ : IsList h l ((ps ++ as) ++ (bs ++ rs)) := by simpa using hisl
  have hs₁ : Returns (Library.isSorted less turns (l.at (as ++ bs ++ rs)) (l.at (bs ++ rs))) h fun r h' =>
      r = decide (descents less as = 0) ∧ h' = h := by
    have hsplit : IsList h l (ps ++ as ++ (bs ++ rs)) := by simpa using hisl
    rw [List.append_assoc]
    exact hsplit.isSorted (by omega)
  have hs₂ : Returns (Library.isSorted less turns (l.at (bs ++ rs)) (l.at rs)) h fun r h' =>
      r = decide (descents less bs = 0) ∧ h' = h := hisl.isSorted (by omega)
  have hn₀ : decide (l.at (as ++ bs ++ rs) ≠ 0) = true := by simpa using h₀.at_ne_zero
  have hn₁ : decide (l.at (bs ++ rs) ≠ 0) = true := by simpa using h₁.at_ne_zero
  have hn₂ : decide (l.at rs ≠ 0) = true := by simpa using hisl.at_ne_zero
  refine Returns.after (assert_run hn₀) (Returns.after (assert_run hn₁) (Returns.after (assert_run hn₂) ?_))
  refine hs₁.bind ?_
  rintro _ _ ⟨rfl, rfl⟩
  rw [hda]
  simp only [decide_true, Bool.not_true, Bool.false_eq_true, if_false]
  refine hs₂.bind ?_
  rintro _ _ ⟨rfl, rfl⟩
  rw [hdb]
  simp only [decide_true, Bool.not_true, Bool.false_eq_true, if_false]
  refine Returns.loop
    (I := fun n (p : ℕ × ℕ) s => ∃ qs xs ys, Holds s L (Function.update f l (qs ++ xs ++ ys ++ rs)) ∧
      qs ++ xs.merge ys (noLater less) = ps ++ as.merge bs (noLater less) ∧ xs.length + ys.length = n ∧
      p = (l.at (xs ++ ys ++ rs), l.at (ys ++ rs))) ?_
    ⟨ps, as, bs, by rwa [← hf, Function.update_eq_self], rfl, rfl, rfl⟩ ht
  rintro n _ s ⟨qs, xs, ys, hs, hmerge, rfl, rfl⟩
  have hsl := hs.isList l hl
  rw [Function.update_self] at hsl
  have hx : l.at (xs ++ ys ++ rs) = l.at (ys ++ rs) ↔ xs = [] := by
    have hsplit : IsList s l (qs ++ xs ++ (ys ++ rs)) := by simpa using hsl
    simpa using hsplit.at_append_eq_iff
  have hy : l.at (ys ++ rs) = l.at rs ↔ ys = [] := hsl.at_append_eq_iff
  refine Returns.ite (fun hend => ?_) fun hend => ?_
  · refine Returns.pure ?_
    have hdone : qs ++ xs ++ ys = ps ++ as.merge bs (noLater less) := by
      rw [← hmerge]
      rcases hend with hend | hend
      · simp [hx.mp hend]
      · simp [hy.mp hend]
    rwa [← hdone]
  · simp only [not_or] at hend
    rw [hx, hy] at hend
    obtain ⟨x, xs, rfl⟩ := List.exists_cons_of_ne_nil hend.1
    obtain ⟨y, ys, rfl⟩ := List.exists_cons_of_ne_nil hend.2
    rw [List.cons_merge_cons] at hmerge
    refine Returns.ite (fun hless => ?_) fun hless => ?_
    · simp only [List.cons_append, ListHeader.at_cons] at hless ⊢
      have hle : noLater less x y = true := hless
      rw [if_pos hle] at hmerge
      have hcur : IsList s l (qs ++ x :: (xs ++ y :: ys ++ rs)) := by simpa using hsl
      exact Returns.after hcur.listNext_run
        (Returns.pure ⟨xs.length + (y :: ys).length, by simp, qs ++ [x], xs, y :: ys,
        by simpa using hs, by simpa using hmerge, rfl, by simp⟩)
    · simp only [List.cons_append, ListHeader.at_cons] at hless ⊢
      have hle : ¬noLater less x y = true := hless
      rw [if_neg hle] at hmerge
      have hcur : IsList s l ((qs ++ x :: xs) ++ y :: (ys ++ rs)) := by simpa using hsl
      have hprev : listPrev (l.at (ys ++ rs)) s = .ok (y, s) := by
        have hsplit : IsList s l ((qs ++ x :: xs ++ [y]) ++ (ys ++ rs)) := by simpa using hsl
        have hrun := hsplit.listPrev_run
        rwa [ListHeader.before_concat] at hrun
      have hfrom :
        Function.update f l (qs ++ x :: xs ++ y :: ys ++ rs) l = qs ++ x :: xs ++ [y] ++ (ys ++ rs) := by simp
      have hto : Function.update (Function.update f l (qs ++ x :: xs ++ y :: ys ++ rs)) l
        (qs ++ x :: xs ++ (ys ++ rs)) l =
          qs ++ (x :: xs ++ (ys ++ rs)) := by simp
      have hmove := hs.splice hl hfrom rfl hl hto
      rw [Function.update_idem, Function.update_idem] at hmove
      refine Returns.after hcur.listNext_run (Returns.after hprev (hmove.bind fun _ s' hs' => ?_))
      exact Returns.pure ⟨(x :: xs).length + ys.length, by simp, qs ++ [y], x :: xs, ys, by simpa using hs',
        by simpa using hmerge, rfl, by simp⟩

lemma sortPass (hh : Holds h L f) (hl : l ∈ L) (ht : (f l).length < turns) :
    Returns (sortPass less turns l) h fun n h' =>
      n = (mergePass less (f l)).2 ∧ Holds h' L (Function.update f l (mergePass less (f l)).1) := by
  refine Returns.after (hh.isList l hl).listBegin_run (Returns.loop
    (I := fun n (p : ℕ × ℕ) s => ∃ qs ts, Holds s L (Function.update f l (qs ++ ts)) ∧ ts.length = n ∧
      (qs ++ ts).length = (f l).length ∧ qs ++ (mergePass less ts).1 = (mergePass less (f l)).1 ∧
      p.2 + (mergePass less ts).2 = (mergePass less (f l)).2 ∧ p.1 = l.at ts) ?_
    ⟨[], f l, by rwa [List.nil_append, Function.update_eq_self], rfl, rfl, rfl, by simp, rfl⟩ ht)
  rintro n ⟨x, cnt⟩ s ⟨qs, ts, hs, rfl, hlen, hlist, hcnt, rfl⟩
  have hsl := hs.isList l hl
  rw [Function.update_self] at hsl
  refine Returns.ite (fun hend => ?_) fun hend => ?_
  · have hts := hsl.at_eq_tail_iff.mp hend
    subst hts
    refine Returns.pure ⟨by simpa [mergePass] using hcnt, ?_⟩
    rwa [← hlist, mergePass]
  · cases ts with
    | nil => exact absurd rfl hend
    | cons a ts =>
      have hrun := takeRun_append less a ts
      have hlt : ts.length < turns := by
        simp only [List.length_append, List.length_cons] at hlen
        omega
      refine Returns.bind (hsl.findEndOfRun hlt) ?_
      rintro _ s' ⟨rfl, rfl⟩
      have hne := takeRun_ne_nil less a ts
      have hdesc := descents_run less a ts
      generalize hfirst : (takeRun less a ts).1 = as at *
      cases hrest : (takeRun less a ts).2 with
      | nil =>
        refine Returns.ite (fun _ => ?_) fun hend' => absurd rfl hend'
        rw [mergePass_last hrest, hfirst] at hlist hcnt
        rw [hrest, List.append_nil] at hrun
        refine Returns.pure ⟨hcnt, ?_⟩
        rwa [← hlist, hrun]
      | cons b bs =>
        rw [hrest] at hrun
        have hsplit : IsList s' l ((qs ++ as) ++ b :: bs) := by
          rw [List.append_assoc, hrun]
          exact hsl
        refine Returns.ite (fun hend' => ?_) fun _ => ?_
        · exact absurd (hsplit.at_eq_tail_iff.mp hend') (List.cons_ne_nil b bs)
        · have hrun' := takeRun_append less b bs
          have hne' := takeRun_ne_nil less b bs
          have hdesc' := descents_run less b bs
          have hsize := congrArg List.length hrun
          have hsize' := congrArg List.length hrun'
          have hpos := List.length_pos_of_ne_nil hne
          rw [mergePass_pair hrest, hfirst] at hlist hcnt
          simp only [List.length_append, List.length_cons] at hsize hsize' hlen
          refine Returns.bind (hsplit.findEndOfRun (by omega)) ?_
          rintro _ s'' ⟨rfl, rfl⟩
          generalize (takeRun less b bs).1 = cs at *
          generalize (takeRun less b bs).2 = ds at *
          have hf : Function.update f l (qs ++ a :: ts) l = qs ++ as ++ cs ++ ds := by
            rw [Function.update_self, List.append_assoc, List.append_assoc, hrun', hrun]
          have hmerge :
            Returns (Library.inplaceMerge less turns (l.at (as ++ cs ++ ds)) (l.at (cs ++ ds)) (l.at ds)) s''
              fun _ s' => _ := hs.inplaceMerge hl hf hdesc hdesc' (by omega)
          rw [List.append_assoc, hrun', hrun, Function.update_idem] at hmerge
          refine hmerge.bind fun _ s'' hs'' => Returns.pure ⟨ds.length, ?_, qs ++ as.merge cs (noLater less), ds,
            hs'', rfl,
            ?_, by simpa using hlist, by omega, rfl⟩
          · simp only [List.length_cons]
            omega
          · simp only [List.length_append, List.length_merge]
            omega

lemma listSort (horder : StrictWeakOrder less) (hh : Holds h L f) (hl : l ∈ L) (ht : (f l).length < turns) :
    Returns (listSort less turns l) h fun _ h' =>
      Holds h' L (Function.update f l ((f l).mergeSort (noLater less))) := by
  refine (Returns.loop (Q := fun _ s => Holds s L (Function.update f l ((f l).mergeSort (noLater less))))
    (I := fun n _ s => ∃ xs, Holds s L (Function.update f l xs) ∧ SameClasses less xs (f l) ∧
      xs.length = (f l).length ∧ descents less xs = n) ?_
    ⟨f l, by rwa [Function.update_eq_self], SameClasses.refl less _, rfl, rfl⟩
    ((descents_le_length less (f l)).trans_lt ht)).bind ?_
  · rintro n _ s ⟨xs, hs, hclasses, hlen, rfl⟩
    have hpass : Returns (Library.sortPass less turns l) s fun _ _ => _ := hs.sortPass hl (by
      rw [Function.update_self]
      omega)
    rw [Function.update_self, Function.update_idem] at hpass
    obtain ⟨hsame, hfewer, hcount⟩ := mergePass_result horder xs
    have hsize : (mergePass less xs).1.length = xs.length := mergePass_length less xs
    refine hpass.bind ?_
    rintro _ s' ⟨rfl, hs'⟩
    refine Returns.ite (fun hmore => ?_) fun hlast => ?_
    · exact Returns.pure
        ⟨descents less (mergePass less xs).1, by omega, (mergePass less xs).1, hs', hsame.trans hclasses,
        by omega, rfl⟩
    · refine Returns.pure ?_
      have hordered : Ordered less (mergePass less xs).1 := descents_eq_zero horder (by omega)
      rwa [← eq_mergeSort horder hordered (hsame.trans hclasses)]
  · intro _ s hs
    have hsl := hs.isList l hl
    rw [Function.update_self] at hsl
    have hdesc := (ordered_mergeSort horder (f l)).descents_eq
    refine Returns.after hsl.listBegin_run ?_
    have hsl' : IsList s l ([] ++ (f l).mergeSort (noLater less) ++ []) := by simpa using hsl
    have hsorted : Returns (Library.isSorted less turns _ _) s fun _ _ => _ := hsl'.isSorted (by simpa using ht)
    rw [List.append_nil] at hsorted
    refine hsorted.bind ?_
    rintro _ _ ⟨rfl, rfl⟩
    rw [hdesc]
    exact Returns.pure hs

end Holds

end CourseArchive.PintOS.Library
