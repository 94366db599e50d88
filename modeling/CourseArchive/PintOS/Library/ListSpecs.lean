import CourseArchive.Lib.NaturalMerge
import CourseArchive.PintOS.Library.ListStore

/-! What each list function does to the lists that a store holds. -/

namespace CourseArchive.PintOS.Library

open Lib

variable {h : Links ℕ} {L : Finset ListHeader} {f : ListHeader → List ℕ} {l l' d : ListHeader}
  {xs ps ms ns qs rs ts : List ℕ}
  {a b e turns : ℕ}

@[mk_iff]
structure Apart (L : Finset ListHeader) (f : ListHeader → List ℕ) (ms : List ℕ) : Prop where
  nodup : ms.Nodup
  nonnull : 0 ∉ ms
  outside : ∀ l ∈ L, (l.nodes (f l)).Disjoint ms

lemma ListHeader.mem_nodes_middle (l : ListHeader) (ps ms rs : List ℕ) (x : ℕ) :
    x ∈ l.nodes (ps ++ ms ++ rs) ↔ x ∈ l.nodes (ps ++ rs) ∨ x ∈ ms := by
  simp only [ListHeader.mem_nodes, List.mem_append]
  tauto

lemma ListHeader.nodup_nodes_middle (l : ListHeader) (ps ms rs : List ℕ) :
    (l.nodes (ps ++ ms ++ rs)).Nodup ↔
    (l.nodes (ps ++ rs)).Nodup ∧ ms.Nodup ∧ (l.nodes (ps ++ rs)).Disjoint ms := by
  have hperm : (l.nodes (ps ++ ms ++ rs)).Perm (l.nodes (ps ++ rs) ++ ms) := by
    simp only [ListHeader.nodes, List.cons_append, List.append_assoc]
    refine List.Perm.cons _ (List.Perm.append_left _ ?_)
    simpa using (List.perm_append_comm : (ms ++ (rs ++ [l.tail])).Perm _)
  rw [hperm.nodup_iff, List.nodup_append']

namespace IsList

lemma listFront_run (hl : IsList h l (e :: rs)) : listFront l h = .ok (e, h) := by
  have hhead : l.head ≠ 0 := hl.ne_zero (by simp [ListHeader.nodes])
  rw [listFront, bind_ok hl.listEmpty_run]
  simp only [reduceCtorEq, decide_false, Bool.false_eq_true, if_false]
  rw [load_next_run hhead]
  have hl' : IsList h l ([] ++ e :: rs) := hl
  exact congrArg (fun x => Except.ok (x, h)) hl'.next_before

lemma listBack_run (hl : IsList h l (ps ++ [e])) : listBack l h = .ok (e, h) := by
  have htail : l.tail ≠ 0 := hl.ne_zero (by simp [ListHeader.nodes])
  have hl' : IsList h l ((ps ++ [e]) ++ []) := by simpa using hl
  rw [listBack, bind_ok hl.listEmpty_run]
  simp only [List.append_eq_nil_iff, List.cons_ne_self, and_false, decide_false, Bool.false_eq_true, if_false]
  rw [load_prev_run htail]
  exact congrArg (fun x => Except.ok (x, h)) (by simpa using hl'.prev_at)

end IsList

namespace Holds

lemma nodes_disjoint_update (hh : Holds h L f) (hl : l ∈ L) (hsub : ∀ x ∈ l.nodes ms, x ∈ l.nodes (f l) ∨ x ∈ ns)
    (hns : ∀ l' ∈ L, (l'.nodes (f l')).Disjoint ns) {k k' : ListHeader} (hk : k ∈ L) (hk' : k' ∈ L)
    (hne : k ≠ k') :
    (k.nodes (Function.update f l ms k)).Disjoint (k'.nodes (Function.update f l ms k')) := by
  by_cases hkl : k = l
  · subst hkl
    rw [Function.update_self, Function.update_of_ne hne.symm]
    intro x hx hx'
    rcases hsub x hx with h₁ | h₁
    · exact hh.disjoint k hk k' hk' hne h₁ hx'
    · exact hns k' hk' hx' h₁
  · rw [Function.update_of_ne hkl]
    by_cases hkl' : k' = l
    · subst hkl'
      rw [Function.update_self]
      intro x hx hx'
      rcases hsub x hx' with h₁ | h₁
      · exact hh.disjoint k hk k' hk' hne hx h₁
      · exact hns k hk hx h₁
    · rw [Function.update_of_ne hkl']
      exact hh.disjoint k hk k' hk' hne

lemma cut (hh : Holds h L f) (hl : l ∈ L) (hf : f l = ps ++ ms ++ rs) :
    Holds (h.connect (l.before ps) (l.at rs)) L (Function.update f l (ps ++ rs)) where
  isList k hk := by
    have hisl := hh.isList l hl
    rw [hf] at hisl
    by_cases hkl : k = l
    · subst hkl
      rw [Function.update_self]
      exact hisl.cut
    · rw [Function.update_of_ne hkl]
      have hdisj := hh.disjoint k hk l hl hkl
      have hmem : ∀ x ∈ l.nodes (ps ++ rs), x ∈ l.nodes (f l) := fun x hx => by
        rw [hf, ListHeader.mem_nodes_middle]
        exact .inl hx
      exact (hh.isList k hk).frame (fun hx => hdisj hx (hmem _ (l.before_mem ps rs)))
        fun hx => hdisj hx (hmem _ (l.at_mem ps rs))
  disjoint k hk k' hk' hne := by
    refine hh.nodes_disjoint_update hl (fun x hx => .inl ?_) (fun _ _ => List.disjoint_nil_right _) hk hk' hne
    rw [hf, ListHeader.mem_nodes_middle]
    exact .inl hx

lemma apart (hh : Holds h L f) (hl : l ∈ L) (hf : f l = ps ++ ms ++ rs) :
    Apart L (Function.update f l (ps ++ rs)) ms := by
  have hisl := hh.isList l hl
  rw [hf] at hisl
  obtain ⟨-, hms, hdisj⟩ := (l.nodup_nodes_middle ps ms rs).mp hisl.nodup
  refine ⟨hms, fun h0 => hisl.nonnull ((l.mem_nodes_middle ps ms rs 0).mpr (.inr h0)), fun k hk => ?_⟩
  by_cases hkl : k = l
  · subst hkl
    rwa [Function.update_self]
  · rw [Function.update_of_ne hkl]
    intro x hx hms'
    refine hh.disjoint k hk l hl hkl hx ?_
    rw [hf, ListHeader.mem_nodes_middle]
    exact .inr hms'

lemma paste (hh : Holds h L f) (hl : l ∈ L) (hf : f l = ps ++ rs) (hc : h.Chain ms) (hfirst : ms = a :: ns)
    (hlast : ms = ms.dropLast ++ [b]) (hap : Apart L f ms) :
    Holds ((h.connect (l.before ps) a).connect b (l.at rs)) L (Function.update f l (ps ++ ms ++ rs)) where
  isList k hk := by
    have hisl := hh.isList l hl
    have hout := hap.outside l hl
    rw [hf] at hisl hout
    by_cases hkl : k = l
    · subst hkl
      rw [Function.update_self]
      exact hisl.paste hc hfirst hlast ((k.nodup_nodes_middle ps ms rs).mpr ⟨hisl.nodup, hap.nodup,
        hout⟩) hap.nonnull
    · rw [Function.update_of_ne hkl]
      have hdisj := hh.disjoint k hk l hl hkl
      rw [hf] at hdisj
      have ha : a ∈ ms := by simp [hfirst]
      have hb : b ∈ ms := by
        rw [hlast]
        simp
      exact ((hh.isList k hk).frame (fun hx => hdisj hx (l.before_mem ps rs)) fun hx =>
        hap.outside k hk hx ha).frame
        (fun hx => hap.outside k hk hx hb) fun hx => hdisj hx (l.at_mem ps rs)
  disjoint k hk k' hk' hne := by
    refine hh.nodes_disjoint_update hl (fun x hx => ?_) hap.outside hk hk' hne
    rw [ListHeader.mem_nodes_middle] at hx
    rwa [hf]

lemma insert (hh : Holds h L f) (hl : l ∈ L) (hf : f l = ps ++ rs) (he : Apart L f [e]) :
    Returns (listInsert (l.at rs) e) h fun _ h' => Holds h' L (Function.update f l (ps ++ e :: rs)) := by
  have hisl := hh.isList l hl
  rw [hf] at hisl
  have he0 : e ≠ 0 := fun h0 => he.nonnull (by simp [h0])
  have hout : e ∉ l.nodes (ps ++ rs) := fun hx => he.outside l hl (hf ▸ hx) (by simp)
  refine ⟨_, _, hisl.listInsert_run he0 hout, ?_⟩
  simpa using hh.paste hl hf (List.isChain_singleton e) rfl rfl he

lemma remove (hh : Holds h L f) (hl : l ∈ L) (hf : f l = ps ++ e :: rs) :
    Returns (listRemove e) h fun r h' => r = l.at rs ∧ Holds h' L (Function.update f l (ps ++ rs)) := by
  have hisl := hh.isList l hl
  rw [hf] at hisl
  refine ⟨_, _, hisl.listRemove_run, rfl, ?_⟩
  have hf' : f l = ps ++ [e] ++ rs := by simpa using hf
  exact hh.cut hl hf'

lemma pushFront (hh : Holds h L f) (hl : l ∈ L) (he : Apart L f [e]) :
    Returns (listPushFront l e) h fun _ h' => Holds h' L (Function.update f l (e :: f l)) :=
  Returns.after (hh.isList l hl).listBegin_run (hh.insert hl (List.nil_append (f l)).symm he)

lemma pushBack (hh : Holds h L f) (hl : l ∈ L) (he : Apart L f [e]) :
    Returns (listPushBack l e) h fun _ h' => Holds h' L (Function.update f l (f l ++ [e])) := by
  have hf : f l = f l ++ [] := (List.append_nil _).symm
  have hend : listPushBack l e = listInsert (l.at []) e := rfl
  rw [hend]
  exact hh.insert hl hf he

lemma popFront (hh : Holds h L f) (hl : l ∈ L) (hf : f l = e :: rs) :
    Returns (listPopFront l) h fun r h' => r = e ∧ Holds h' L (Function.update f l rs) := by
  have hfront := (hf ▸ hh.isList l hl).listFront_run
  have hf' : f l = [] ++ e :: rs := hf
  refine Returns.after hfront ((hh.remove hl hf').bind fun _ _ hr => ?_)
  exact Returns.pure ⟨rfl, hr.2⟩

lemma popBack (hh : Holds h L f) (hl : l ∈ L) (hf : f l = ps ++ [e]) :
    Returns (listPopBack l) h fun r h' => r = e ∧ Holds h' L (Function.update f l ps) := by
  have hback := (hf ▸ hh.isList l hl).listBack_run
  refine Returns.after hback ((hh.remove hl hf).bind fun _ _ hr => ?_)
  exact Returns.pure ⟨rfl, by simpa using hr.2⟩

lemma interior_or_tail (hh : Holds h L f) (hl : l ∈ L) (he : e ∈ f l ∨ e = l.tail) :
    (isInterior e h || isTail e h) = true := by
  have hisl := hh.isList l hl
  rcases he with he | rfl
  · obtain ⟨ps, rs, hf⟩ := List.append_of_mem he
    rw [hf] at hisl
    simpa using hisl.interior_or_tail
  · have hend : IsList h l (f l ++ []) := by simpa using hisl
    exact hend.interior_or_tail

lemma splice (hh : Holds h L f) (hl : l ∈ L) (hf : f l = ps ++ ms ++ rs) (hfirst : ms = a :: ns) (hl' : l' ∈ L)
    (hf' : Function.update f l (ps ++ rs) l' = qs ++ ts) :
    Returns (listSplice (l'.at ts) a (l.at rs)) h fun _ h' =>
      Holds h' L (Function.update (Function.update f l (ps ++ rs)) l' (qs ++ ms ++ ts)) := by
  -- the segment `ms` leaves `l` and goes in front of the cursor of `l'`, which may be `l` itself
  have hisl := hh.isList l hl
  rw [hf] at hisl
  have hcut := hh.cut hl hf
  have hap := hh.apart hl hf
  have hisl' := hcut.isList l' hl'
  rw [hf'] at hisl'
  obtain ⟨b, hlast⟩ : ∃ b, ms = ms.dropLast ++ [b] :=
    ⟨ms.getLast (by simp [hfirst]), (List.dropLast_append_getLast _).symm⟩
  have ha : a ∈ ms := by simp [hfirst]
  have hb : b ∈ ms := by
    rw [hlast]
    simp
  have hout : ∀ x ∈ ms, x ∉ l'.nodes (qs ++ ts) := fun x hx hx' => hap.outside l' hl' (hf' ▸ hx') hx
  have hnot : ∀ x ∈ ms, x ∉ l.nodes (ps ++ rs) := by
    have hout' := hap.outside l hl
    rw [Function.update_self] at hout'
    exact fun x hx hx' => hout' hx' hx
  have hne : a ≠ l.at rs := fun heq => hnot a ha (heq ▸ l.at_mem ps rs)
  have ha0 : a ≠ 0 := fun h0 => hap.nonnull (h0 ▸ ha)
  have hb0 : b ≠ 0 := fun h0 => hap.nonnull (h0 ▸ hb)
  have hbefore : (isInterior (l'.at ts) h || isTail (l'.at ts) h) = true := by
    refine hh.interior_or_tail hl' ?_
    have hmem : l'.at ts ∈ Function.update f l (ps ++ rs) l' ∨ l'.at ts = l'.tail := by
      rw [hf']
      cases ts <;> simp
    refine hmem.imp_left fun hx => ?_
    by_cases hll : l' = l
    · subst hll
      rw [Function.update_self] at hx
      rw [hf]
      simp only [List.mem_append] at hx ⊢
      tauto
    · rwa [Function.update_of_ne hll] at hx
  -- the two ends of the segment, as the list stands
  have hsplitFirst : IsList h l (ps ++ a :: (ns ++ rs)) := by simpa [hfirst] using hisl
  have hsplitLast : IsList h l ((ps ++ ms.dropLast) ++ b :: rs) := by
    have heq : (ps ++ ms.dropLast) ++ b :: rs = ps ++ ms ++ rs := by
      conv_rhs => rw [hlast]
      simp
    rwa [heq]
  have hprevLast : listPrev (l.at rs) h = .ok (b, h) := by
    have hrun := hisl.listPrev_run
    rwa [hlast, ← List.append_assoc, ListHeader.before_concat] at hrun
  have hpf : h.prev a = l.before ps := by simpa using hsplitFirst.prev_at
  have hnl : h.next b = l.at rs := hsplitLast.next_of_cons
  have hp0 := hsplitFirst.before_ne_zero
  have hs0 : l.at rs ≠ 0 := hisl.at_ne_zero
  have hq0 := hisl'.before_ne_zero
  have ht0 := hisl'.at_ne_zero
  have hnl' : (h.setNext (l.before ps) (l.at rs)).next b = l.at rs := by simp [hnl]
  have hpf' : (h.setNext (l.before ps) (l.at rs)).prev a = l.before ps := by simp [hpf]
  have hbq : b ≠ l'.before qs := fun heq => hout b hb (heq ▸ l'.before_mem qs ts)
  have hat : l'.at ts ≠ a := fun heq => hout a ha (heq ▸ l'.at_mem qs ts)
  have hprevBefore :
    (((h.connect (l.before ps) (l.at rs)).setPrev a (l'.before qs)).setNext b (l'.at ts)).prev (l'.at ts) =
      l'.before qs := by simp [hat, hisl'.prev_at]
  have hrun : listSplice (l'.at ts) a (l.at rs) h = .ok ((), ((h.connect (l.before ps) (l.at rs)).connect
      (l'.before qs) a).connect b (l'.at ts)) := by
    rw [listSplice, bind_ok (assert_run hbefore), if_neg hne, bind_ok hprevLast,
      bind_ok (assert_run hsplitFirst.isInterior), bind_ok (assert_run hsplitLast.isInterior),
      bind_ok (load_prev_run ha0), hpf, bind_ok (load_next_run hb0), hnl, bind_ok (store_next_run hp0 _),
      bind_ok (load_next_run hb0), hnl', bind_ok (load_prev_run ha0), hpf', bind_ok (store_prev_run hs0 _)]
    change (load (.prev (l'.at ts)) >>= _) (h.connect (l.before ps) (l.at rs)) = _
    rw [bind_ok (load_prev_run ht0), hisl'.prev_at, bind_ok (store_prev_run ha0 _), bind_ok (store_next_run hb0 _),
      bind_ok (load_prev_run ht0), hprevBefore, bind_ok (store_next_run hq0 _), store_prev_run ht0,
      Links.paste_eq _ hbq]
  refine ⟨_, _, hrun, ?_⟩
  exact hcut.paste hl' hf' hisl.chain_segment hfirst hlast hap

end Holds

/-! Loops along a list. -/

lemma IsList.listSize (hl : IsList h l xs) (ht : xs.length < turns) :
    Returns (listSize turns l) h fun n h' => n = xs.length ∧ h' = h := by
  refine Returns.after hl.listBegin_run (Returns.loop
    (I := fun n (p : ℕ × ℕ) s => s = h ∧ ∃ ps rs, xs = ps ++ rs ∧ rs.length = n ∧ p = (l.at rs, ps.length)) ?_
    ⟨rfl, [], xs, rfl, rfl, rfl⟩ ht)
  rintro n _ _ ⟨rfl, ps, rs, rfl, rfl, rfl⟩
  refine Returns.ite (fun hend => ?_) fun hend => ?_
  · have hrs := hl.at_eq_tail_iff.mp hend
    subst hrs
    exact Returns.pure ⟨by simp, rfl⟩
  · cases rs with
    | nil => exact absurd rfl hend
    | cons e rs =>
      refine Returns.after hl.listNext_run
        (Returns.pure ⟨rs.length, by simp, rfl, ps ++ [e], rs, by simp, rfl, by simp⟩)

lemma IsList.congr {g : Links ℕ} (hl : IsList h l xs)
    (hg : ∀ x ∈ l.nodes xs, g.next x = h.next x ∧ g.prev x = h.prev x) : IsList g l xs where
  chain := by
    refine List.IsChain.imp_of_mem_imp ?_ hl.chain
    intro x y hx hy hxy
    exact ⟨by rw [(hg x hx).1, hxy.1], by rw [(hg y hy).2, hxy.2]⟩
  nodup := hl.nodup
  nonnull := hl.nonnull
  front := by rw [(hg _ (by simp [ListHeader.nodes])).2, hl.front]
  back := by rw [(hg _ (by simp [ListHeader.nodes])).1, hl.back]

lemma IsList.head_not_mem (hl : IsList h l xs) : l.head ∉ xs ∧ l.head ≠ l.tail := by
  have hnd := hl.nodup
  have hnodes : l.nodes xs = l.head :: (xs ++ [l.tail]) := rfl
  rw [hnodes, List.nodup_cons] at hnd
  simpa using hnd.1

lemma IsList.tail_not_mem (hl : IsList h l xs) : l.tail ∉ xs := by
  intro hx
  exact List.disjoint_of_nodup_append hl.nodup (List.mem_cons_of_mem _ hx) (by simp)

structure Turned (h s : Links ℕ) (ps : List ℕ) : Prop where
  next : ∀ x, s.next x = if x ∈ ps then h.prev x else h.next x
  prev : ∀ x, s.prev x = if x ∈ ps then h.next x else h.prev x

lemma swap_run {s : Links ℕ} (he : e ≠ 0) : swap (.prev e) (.next e) s =
    .ok ((), (s.setPrev e (s.next e)).setNext e (s.prev e)) := by
  rw [swap, bind_ok (load_prev_run he), bind_ok (load_next_run he), bind_ok (store_prev_run he _),
    store_next_run he]

lemma Turned.step {s : Links ℕ} (hs : Turned h s ps) (he : e ∉ ps) :
    Turned h ((s.setPrev e (s.next e)).setNext e (s.prev e)) (ps ++ [e]) where
  next x := by
    by_cases hx : x = e
    · subst hx
      simp [hs.prev, he]
    · simp [hs.next, hx]
  prev x := by
    by_cases hx : x = e
    · subst hx
      simp [hs.next, he]
    · simp [hs.prev, hx]

lemma IsList.reversed {s : Links ℕ} (hl : IsList h l (a :: ns)) (hlast : a :: ns = ms ++ [b])
    (hs : Turned h s (a :: ns)) :
    IsList ((s.connect l.head b).connect a l.tail) l (a :: ns).reverse := by
  -- the last two exchanges of `list_reverse`, once the links of all elements have been exchanged
  have hnd := hl.nodup
  have hmem : ∀ x, x ∈ l.nodes (a :: ns).reverse ↔ x ∈ l.nodes (a :: ns) := by
    intro x
    simp only [ListHeader.mem_nodes, List.mem_reverse]
  have hperm : (l.nodes (a :: ns).reverse).Perm (l.nodes (a :: ns)) :=
    ((List.reverse_perm _).append_right _).cons _
  have hchain : h.Chain (a :: ns) := by
    have hc := hl.chain
    have hnodes : l.nodes (a :: ns) = [l.head] ++ ((a :: ns) ++ [l.tail]) := by simp [ListHeader.nodes]
    rw [hnodes] at hc
    exact hc.right.left
  have hrev : s.Chain (a :: ns).reverse :=
    hchain.reverse (fun x hx => by rw [hs.next, if_pos hx]) fun x hx => by rw [hs.prev, if_pos hx]
  have hnodes :
    l.nodes (a :: ns).reverse = (l.head :: ns.reverse) ++ a :: l.tail :: [] := by simp [ListHeader.nodes]
  have hnd' := hperm.nodup_iff.mpr hnd
  have hhead : (s.connect l.head b).Chain ((l.head :: ns.reverse) ++ [a]) := by
    have hb : (a :: ns).reverse = b :: ms.reverse := by simp [hlast]
    have hsingle : s.Chain ([] ++ [l.head]) := List.isChain_singleton l.head
    have hstart := hsingle.join (hb ▸ hrev) (by
      rw [← hb]
      exact hnd'.sublist (by simp [ListHeader.nodes]))
    rw [List.nil_append, ← hb] at hstart
    simpa using hstart
  have hhead' := hl.head_not_mem
  have htail' := hl.tail_not_mem
  refine ⟨?_, hnd', fun h0 => hl.nonnull ((hmem 0).mp h0), ?_, ?_⟩
  · rw [hnodes]
    refine hhead.join (List.isChain_singleton l.tail) ?_
    rwa [hnodes] at hnd'
  · have hb : b ∈ a :: ns := by simp [hlast]
    rw [Links.prev_connect, if_neg hhead'.2, Links.prev_connect,
      if_neg (fun heq : l.head = b => hhead'.1 (heq ▸ hb)), hs.prev,
      if_neg hhead'.1, hl.front]
  · rw [Links.next_connect, if_neg (fun heq => htail' (by simp [heq])), Links.next_connect, if_neg hhead'.2.symm,
      hs.next,
      if_neg htail', hl.back]

lemma IsList.listReverse (hl : IsList h l (a :: ns)) (hlast : a :: ns = ms ++ [b])
    (ht : (a :: ns).length < turns) :
    Returns (listReverse turns l) h fun _ h' => ∃ s, Turned h s (a :: ns) ∧
    h' = (s.connect l.head b).connect a l.tail := by
  refine Returns.after hl.listEmpty_run ?_
  simp only [reduceCtorEq, decide_false, Bool.not_false, if_true]
  refine Returns.after hl.listBegin_run ((Returns.loop (Q := fun _ s => Turned h s (a :: ns))
    (I := fun n (x : ℕ) s => ∃ ps rs, a :: ns = ps ++ rs ∧ rs.length = n ∧ x = l.at rs ∧ Turned h s ps) ?_
    ⟨[], a :: ns, rfl, rfl, rfl, ?_⟩ ht).bind ?_)
  · rintro n _ s ⟨ps, rs, hf, rfl, rfl, hs⟩
    rw [hf] at hl
    refine Returns.ite (fun hend => ?_) fun hend => ?_
    · have hrs := hl.at_eq_tail_iff.mp hend
      subst hrs
      rw [List.append_nil] at hf
      exact Returns.pure (hf ▸ hs)
    · cases rs with
      | nil => exact absurd rfl hend
      | cons e rs =>
        have he0 : e ≠ 0 := by simpa using hl.at_ne_zero
        have hnd : e ∉ ps := by
          have hnd := hl.nodup
          simp only [ListHeader.nodes, List.cons_append, List.append_assoc, List.nodup_cons,
            List.nodup_append] at hnd
          exact fun hx => hnd.2.2.2 e hx e (by simp) rfl
        refine Returns.after (swap_run he0) (Returns.after (load_prev_run he0) (Returns.pure
          ⟨rs.length, by simp, ps ++ [e], rs, by simp [hf], rfl, ?_, hs.step hnd⟩))
        simp [hs.next, hnd, hl.next_of_cons]
  · exact ⟨by simp, by simp⟩
  · intro _ s hs
    have hhead := hl.head_not_mem.1
    have htail := hl.tail_not_mem
    have hhead0 : l.head ≠ 0 := hl.ne_zero (by simp [ListHeader.nodes])
    have htail0 : l.tail ≠ 0 := hl.ne_zero (by simp [ListHeader.nodes])
    have ha0 : a ≠ 0 := hl.ne_zero (by simp [ListHeader.nodes])
    have hb : b ∈ a :: ns := by simp [hlast]
    have hb0 : b ≠ 0 := hl.ne_zero (ListHeader.mem_nodes.mpr (.inr (.inl hb)))
    have hfirst : s.next l.head = a := by
      have hl' : IsList h l ([] ++ a :: ns) := hl
      rw [hs.next, if_neg hhead]
      exact hl'.next_before
    have hlast' : s.prev l.tail = b := by
      have hl' : IsList h l ((ms ++ [b]) ++ []) := by simpa [← hlast] using hl
      rw [hs.prev, if_neg htail]
      simpa using hl'.prev_at
    have hprevLast : s.prev b = l.tail := by
      have hl' : IsList h l (ms ++ b :: []) := by simpa [← hlast] using hl
      rw [hs.prev, if_pos hb]
      exact hl'.next_of_cons
    have hnextFirst : s.next a = l.head := by
      have hl' : IsList h l ([] ++ a :: ns) := hl
      rw [hs.next, if_pos List.mem_cons_self]
      exact hl'.prev_at
    have hbt : b ≠ l.tail := fun heq => htail (heq ▸ hb)
    have hah : a ≠ l.head := fun heq => hhead (heq ▸ List.mem_cons_self)
    have hswap : swap (.next l.head) (.prev l.tail) s = .ok ((), (s.setNext l.head b).setPrev l.tail a) := by
      rw [swap, bind_ok (load_next_run hhead0), hfirst, bind_ok (load_prev_run htail0), hlast',
        bind_ok (store_next_run hhead0 _), store_prev_run htail0]
    have hn : ((s.setNext l.head b).setPrev l.tail a).next l.head = b := by simp
    have hp : ((s.setNext l.head b).setPrev l.tail a).prev l.tail = a := by simp
    have hpb : ((s.setNext l.head b).setPrev l.tail a).prev b = l.tail := by simp [hbt, hprevLast]
    have hna : ((s.setNext l.head b).setPrev l.tail a).next a = l.head := by simp [hah, hnextFirst]
    refine Returns.after hswap (Returns.after (load_next_run hhead0) (Returns.after (load_prev_run htail0) ?_))
    rw [hn, hp]
    refine Returns.after (load_prev_run hb0)
      (Returns.after (load_next_run ha0) (Returns.after (store_prev_run hb0 _) ?_))
    refine ⟨_, _, store_next_run ha0 _, s, hs, ?_⟩
    rw [hpb, hna, Links.setPrev_comm _ hbt.symm]
    rfl

lemma Holds.listReverse (hh : Holds h L f) (hl : l ∈ L) (ht : (f l).length < turns) :
    Returns (listReverse turns l) h fun _ h' => Holds h' L (Function.update f l (f l).reverse) := by
  have hisl := hh.isList l hl
  cases hf : f l with
  | nil =>
    rw [hf] at hisl
    refine Returns.after hisl.listEmpty_run (Returns.pure ?_)
    rwa [List.reverse_nil, ← hf, Function.update_eq_self]
  | cons a ns =>
    rw [hf] at hisl ht
    obtain ⟨ms, b, hlast⟩ : ∃ ms b, a :: ns = ms ++ [b] :=
      ⟨_, _, (List.dropLast_append_getLast (List.cons_ne_nil a ns)).symm⟩
    refine (hisl.listReverse hlast ht).mono ?_
    rintro _ _ ⟨s, hs, rfl⟩
    have hmem : ∀ x, x ∈ l.nodes (a :: ns).reverse ↔ x ∈ l.nodes (f l) := by
      intro x
      rw [hf]
      simp only [ListHeader.mem_nodes, List.mem_reverse]
    refine ⟨fun k hk => ?_, fun k hk k' hk' hne =>
      hh.nodes_disjoint_update hl (fun x hx => .inl ((hmem x).mp hx)) (fun _ _ => List.disjoint_nil_right _) hk
      hk' hne⟩
    by_cases hkl : k = l
    · subst hkl
      rw [Function.update_self]
      exact hisl.reversed hlast hs
    · rw [Function.update_of_ne hkl]
      refine (hh.isList k hk).congr fun x hx => ?_
      have hout : x ∉ l.nodes (a :: ns) := fun hx' => hh.disjoint k hk l hl hkl hx (hf ▸ hx')
      simp only [ListHeader.mem_nodes, not_or] at hout
      have hb : x ≠ b := fun heq => hout.2.1 (by simp [hlast, heq])
      have ha : x ≠ a := fun heq => hout.2.1 (by simp [heq])
      simp only [Links.next_connect, Links.prev_connect, hs.next, hs.prev, hout, ha, hb, if_false, and_self]

section Less

variable {less : ℕ → ℕ → Bool}

def insertOrdered (less : ℕ → ℕ → Bool) (e : ℕ) (xs : List ℕ) : List ℕ :=
  xs.takeWhile (fun x => !less e x) ++ e :: xs.dropWhile fun x => !less e x

lemma Holds.listInsertOrdered (hh : Holds h L f) (hl : l ∈ L) (he : Apart L f [e]) (ht : (f l).length < turns) :
    Returns (listInsertOrdered less turns l e) h fun _ h' =>
      Holds h' L (Function.update f l (insertOrdered less e (f l))) := by
  have hisl := hh.isList l hl
  have he0 : decide (e ≠ 0) = true := by
    have hne : e ≠ 0 := fun h0 => he.nonnull (by simp [h0])
    simpa using hne
  refine Returns.after (assert_run he0) (Returns.after hisl.listBegin_run ?_)
  refine Returns.bind (P := fun r s => s = h ∧ r = l.at ((f l).dropWhile fun x => !less e x)) (Returns.loop
    (I := fun n (x : ℕ) s => s = h ∧
      ∃ ps rs, f l = ps ++ rs ∧ (∀ p ∈ ps, less e p = false) ∧ rs.length = n ∧ x = l.at rs) ?_
    ⟨rfl, [], f l, rfl, by simp, rfl, rfl⟩ ht) ?_
  · rintro n _ _ ⟨rfl, ps, rs, hf, hps, rfl, rfl⟩
    have hdrop : (f l).dropWhile (fun x => !less e x) = rs.dropWhile fun x => !less e x := by
      rw [hf, List.dropWhile_append_of_pos]
      simpa using hps
    rw [hf] at hisl
    refine Returns.ite (fun hend => ?_) fun hend => ?_
    · have hrs := hisl.at_eq_tail_iff.mp hend
      subst hrs
      exact Returns.pure ⟨rfl, by simp [hdrop]⟩
    · cases rs with
      | nil => exact absurd rfl hend
      | cons x rs =>
        refine Returns.ite (fun hless => ?_) fun hless => ?_
        · refine Returns.pure ⟨rfl, ?_⟩
          simp only [ListHeader.at_cons] at hless
          simp [hdrop, hless]
        · simp only [ListHeader.at_cons, Bool.not_eq_true] at hless
          refine Returns.after hisl.listNext_run
            (Returns.pure ⟨rs.length, by simp, rfl, ps ++ [x], rs, by simp [hf], ?_, rfl, rfl⟩)
          intro p hp
          rcases List.mem_append.mp hp with hp | hp
          · exact hps p hp
          · rwa [List.mem_singleton.mp hp]
  · rintro r s ⟨rfl, rfl⟩
    exact hh.insert hl (List.takeWhile_append_dropWhile).symm he

def unique (less : ℕ → ℕ → Bool) : ℕ → List ℕ → List ℕ × List ℕ
  | _, [] => ([], [])
  | a, b :: xs =>
    if equivalent less a b then (unique less a xs).map id (b :: ·)
    else (unique less b xs).map (b :: ·) id

def collect (f : ListHeader → List ℕ) (duplicates : Option ListHeader) (gone : List ℕ) : ListHeader → List ℕ :=
  match duplicates with
  | some d => Function.update f d (f d ++ gone)
  | none => f

variable {duplicates : Option ListHeader}

lemma collect_self (hne : ∀ d ∈ duplicates, d ≠ l) (gone : List ℕ) :
    collect (Function.update f l xs) duplicates gone l = xs := by
  cases duplicates with
  | none => simp [collect]
  | some d => simp [collect, Function.update_of_ne (hne d rfl).symm]

lemma update_collect (hne : ∀ d ∈ duplicates, d ≠ l) (gone ys : List ℕ) :
    Function.update (collect (Function.update f l xs) duplicates gone) l ys =
      collect (Function.update f l ys) duplicates gone := by
  cases duplicates with
  | none => simp [collect]
  | some d =>
    have hdl := hne d rfl
    simp only [collect, Function.update_of_ne hdl]
    rw [Function.update_comm hdl, Function.update_idem]

lemma collect_push (f : ListHeader → List ℕ) (d : ListHeader) (gone : List ℕ) (e : ℕ) :
    Function.update (collect f (some d) gone) d (collect f (some d) gone d ++ [e]) =
      collect f (some d) (gone ++ [e]) := by
  simp [collect]

lemma Holds.listUnique_cons (hh : Holds h L f) (hl : l ∈ L) (hd : ∀ d ∈ duplicates, d ∈ L ∧ d ≠ l)
    (hf : f l = a :: xs) (ht : xs.length < turns) :
    Returns (listUnique less turns l duplicates) h fun _ h' =>
      Holds h' L (collect (Function.update f l (a :: (unique less a xs).1)) duplicates (unique less a xs).2) := by
  have hisl := hh.isList l hl
  have hne : ∀ d ∈ duplicates, d ≠ l := fun d hd' => (hd d hd').2
  rw [hf] at hisl
  refine Returns.after hisl.listEmpty_run (Returns.after hisl.listBegin_run (Returns.loop
    (I := fun n (e : ℕ) s => ∃ ps rs gone, rs.length = n ∧
      Holds s L (collect (Function.update f l (ps ++ e :: rs)) duplicates gone) ∧
      ps ++ e :: (unique less e rs).1 = a :: (unique less a xs).1 ∧
      gone ++ (unique less e rs).2 = (unique less a xs).2) ?_
    ⟨[], xs, [], rfl, ?_, rfl, rfl⟩ ht))
  · rintro n e s ⟨ps, rs, gone, rfl, hs, hkept, hgone⟩
    have hsl := hs.isList l hl
    rw [collect_self hne] at hsl
    refine Returns.after hsl.listNext_run (Returns.ite (fun hend => ?_) fun hend => ?_)
    · have hsl' : IsList s l ((ps ++ [e]) ++ rs) := by simpa using hsl
      have hrs := hsl'.at_eq_tail_iff.mp hend
      subst hrs
      refine Returns.pure ?_
      rwa [← hkept, ← hgone, unique, List.append_nil]
    · cases rs with
      | nil => exact absurd rfl hend
      | cons x rs =>
        simp only [ListHeader.at_cons]
        refine Returns.ite (fun heq => ?_) fun heq => ?_
        · have hequiv : equivalent less e x = true := by simpa [equivalent] using heq
          rw [unique, if_pos hequiv] at hkept hgone
          have hfl : collect (Function.update f l (ps ++ e :: x :: rs)) duplicates gone l =
              (ps ++ [e]) ++ x :: rs := by
            rw [collect_self hne]
            simp
          have hsegment :
            collect (Function.update f l (ps ++ e :: x :: rs)) duplicates gone l = (ps ++ [e]) ++ [x] ++ rs := by
            rw [hfl]
            simp
          have hap := hs.apart hl hsegment
          rw [update_collect hne, List.append_assoc] at hap
          refine (hs.remove hl hfl).bind fun _ s' hs' => ?_
          obtain ⟨-, hs'⟩ := hs'
          rw [update_collect hne, List.append_assoc] at hs'
          cases hdup : duplicates with
          | none =>
            subst hdup
            exact Returns.pure ⟨rs.length, by simp, ps, rs, gone ++ [x], rfl, hs', hkept, by simpa using hgone⟩
          | some d =>
            subst hdup
            refine (hs'.pushBack (hd d rfl).1 hap).bind fun _ s'' hs'' => ?_
            rw [collect_push] at hs''
            exact Returns.pure ⟨rs.length, by simp, ps, rs, gone ++ [x], rfl, hs'', hkept, by simpa using hgone⟩
        · have hequiv : ¬equivalent less e x = true := by simpa [equivalent] using heq
          rw [unique, if_neg hequiv] at hkept hgone
          exact Returns.pure
            ⟨rs.length, by simp, ps ++ [e], rs, gone, rfl, by simpa using hs, by simpa using hkept, hgone⟩
  · have hcollect : collect (Function.update f l ([] ++ a :: xs)) duplicates [] = f := by
      rw [List.nil_append, ← hf, Function.update_eq_self]
      cases duplicates <;> simp [collect]
    rwa [ListHeader.at_cons, hcollect]

def uniqued (less : ℕ → ℕ → Bool) (f : ListHeader → List ℕ) (l : ListHeader) (duplicates : Option ListHeader) :
    ListHeader → List ℕ :=
  match f l with
  | [] => f
  | a :: xs => collect (Function.update f l (a :: (unique less a xs).1)) duplicates (unique less a xs).2

lemma Holds.listUnique (hh : Holds h L f) (hl : l ∈ L) (hd : ∀ d ∈ duplicates, d ∈ L ∧ d ≠ l)
    (ht : (f l).length < turns) :
    Returns (listUnique less turns l duplicates) h fun _ h' => Holds h' L (uniqued less f l duplicates) := by
  have hisl := hh.isList l hl
  cases hf : f l with
  | nil =>
    rw [hf] at hisl
    refine Returns.after hisl.listEmpty_run ?_
    simp only [decide_true, if_true]
    refine Returns.pure ?_
    rwa [uniqued, hf]
  | cons a xs =>
    rw [hf, List.length_cons] at ht
    rw [uniqued, hf]
    exact hh.listUnique_cons hl hd hf (Nat.lt_of_succ_lt ht)

def best (better : ℕ → ℕ → Bool) (l : ListHeader) : List ℕ → ℕ
  | [] => l.tail
  | a :: xs => xs.foldl (fun found e => if better found e then e else found) a

lemma IsList.listBest {better : ℕ → ℕ → Bool} (hl : IsList h l xs) (ht : xs.length < turns) :
    Returns (listBest turns better l) h fun r h' => r = best better l xs ∧ h' = h := by
  refine Returns.after hl.listBegin_run ?_
  cases xs with
  | nil =>
    have hend : l.at [] = listEnd l := rfl
    rw [if_pos hend]
    exact Returns.pure ⟨rfl, rfl⟩
  | cons a xs =>
    have hfirst : IsList h l ([] ++ a :: xs) := hl
    have hne : ¬l.at (a :: xs) = listEnd l := by
      simpa [listEnd] using hfirst.at_eq_tail_iff.not.mpr (List.cons_ne_nil a xs)
    rw [if_neg hne]
    refine Returns.after hfirst.listNext_run (Returns.loop
      (I := fun n (p : ℕ × ℕ) s => s = h ∧ ∃ ps rs, xs = ps ++ rs ∧ rs.length = n ∧
        p = (l.at rs, ps.foldl (fun found e => if better found e then e else found) a)) ?_
      ⟨rfl, [], xs, rfl, rfl, rfl⟩ (Nat.lt_of_succ_lt ht))
    rintro n _ s ⟨rfl, ps, rs, rfl, rfl, rfl⟩
    have hl' : IsList s l ((a :: ps) ++ rs) := hl
    refine Returns.ite (fun hend => ?_) fun hend => ?_
    · have hrs := hl'.at_eq_tail_iff.mp hend
      subst hrs
      exact Returns.pure ⟨by rw [List.append_nil]; rfl, rfl⟩
    · cases rs with
      | nil => exact absurd rfl hend
      | cons e rs =>
        refine Returns.after hl'.listNext_run
          (Returns.pure ⟨rs.length, by simp, rfl, ps ++ [e], rs, by simp, rfl, ?_⟩)
        rw [List.foldl_append]
        rfl

end Less

end CourseArchive.PintOS.Library
