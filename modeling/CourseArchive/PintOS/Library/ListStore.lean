import CourseArchive.PintOS.Library.List

/-! Which lists a store of links holds, and what cutting and pasting a segment does to them. -/

namespace CourseArchive.PintOS.Library

open Lib

variable {h : Links ℕ} {L : Finset ListHeader} {f : ListHeader → List ℕ} {l l' : ListHeader}
  {xs ps ms rs : List ℕ} {e : ℕ}

def ListHeader.nodes (l : ListHeader) (xs : List ℕ) : List ℕ := l.head :: xs ++ [l.tail]

def ListHeader.at (l : ListHeader) (rs : List ℕ) : ℕ := rs.headD l.tail

def ListHeader.before (l : ListHeader) (ps : List ℕ) : ℕ := ps.getLastD l.head

@[simp] lemma ListHeader.at_cons (l : ListHeader) (e : ℕ) (rs : List ℕ) : l.at (e :: rs) = e := rfl

@[simp] lemma ListHeader.at_nil (l : ListHeader) : l.at [] = l.tail := rfl

@[simp] lemma ListHeader.before_nil (l : ListHeader) : l.before [] = l.head := rfl

@[simp] lemma ListHeader.before_concat (l : ListHeader) (ps : List ℕ) (e : ℕ) : l.before (ps ++ [e]) = e := by
  simp [before]

structure IsList (h : Links ℕ) (l : ListHeader) (xs : List ℕ) : Prop where
  chain : h.Chain (l.nodes xs)
  nodup : (l.nodes xs).Nodup
  nonnull : 0 ∉ l.nodes xs
  front : h.prev l.head = 0
  back : h.next l.tail = 0

structure Holds (h : Links ℕ) (L : Finset ListHeader) (f : ListHeader → List ℕ) : Prop where
  isList : ∀ l ∈ L, IsList h l (f l)
  disjoint : ∀ l ∈ L, ∀ l' ∈ L, l ≠ l' → (l.nodes (f l)).Disjoint (l'.nodes (f l'))

lemma ListHeader.mem_nodes {x : ℕ} : x ∈ l.nodes xs ↔ x = l.head ∨ x ∈ xs ∨ x = l.tail := by
  simp [nodes]

lemma ListHeader.nodes_split (l : ListHeader) (ps rs : List ℕ) :
    ∃ as bs, ∀ ms, l.nodes (ps ++ ms ++ rs) = as ++ l.before ps :: ms ++ l.at rs :: bs := by
  obtain ⟨as, ha⟩ := Links.exists_eq_append_getLastD l.head ps
  obtain ⟨bs, hb⟩ := Links.exists_eq_headD_cons l.tail rs
  refine ⟨as, bs, fun ms => ?_⟩
  calc l.nodes (ps ++ ms ++ rs) = (l.head :: ps) ++ ms ++ (rs ++ [l.tail]) := by simp [nodes]
    _ = as ++ l.before ps :: ms ++ l.at rs :: bs := by
      rw [ha, hb]
      simp [before, «at»]

lemma ListHeader.before_mem (l : ListHeader) (ps rs : List ℕ) : l.before ps ∈ l.nodes (ps ++ rs) := by
  obtain ⟨as, bs, hsplit⟩ := l.nodes_split ps rs
  have hnodes := hsplit []
  simp only [List.append_nil] at hnodes
  simp [hnodes]

lemma ListHeader.at_mem (l : ListHeader) (ps rs : List ℕ) : l.at rs ∈ l.nodes (ps ++ rs) := by
  obtain ⟨as, bs, hsplit⟩ := l.nodes_split ps rs
  have hnodes := hsplit []
  simp only [List.append_nil] at hnodes
  simp [hnodes]

namespace IsList

lemma joined (hl : IsList h l (ps ++ rs)) : h.Joined (l.before ps) (l.at rs) := by
  obtain ⟨as, bs, hsplit⟩ := l.nodes_split ps rs
  have hnodes := hsplit []
  simp only [List.append_nil] at hnodes
  have hc := hl.chain
  rw [hnodes, List.append_assoc] at hc
  exact hc.joined

lemma next_before (hl : IsList h l (ps ++ rs)) : h.next (l.before ps) = l.at rs := hl.joined.1

lemma prev_at (hl : IsList h l (ps ++ rs)) : h.prev (l.at rs) = l.before ps := hl.joined.2

lemma next_of_cons (hl : IsList h l (ps ++ e :: rs)) : h.next e = l.at rs := by
  have hl' : IsList h l ((ps ++ [e]) ++ rs) := by simpa using hl
  simpa using hl'.next_before

lemma ne_zero (hl : IsList h l xs) {x : ℕ} (hx : x ∈ l.nodes xs) : x ≠ 0 := fun h0 => hl.nonnull (h0 ▸ hx)

lemma at_ne_zero (hl : IsList h l (ps ++ rs)) : l.at rs ≠ 0 := hl.ne_zero (l.at_mem ps rs)

lemma before_ne_zero (hl : IsList h l (ps ++ rs)) : l.before ps ≠ 0 := hl.ne_zero (l.before_mem ps rs)

lemma at_eq_tail_iff (hl : IsList h l (ps ++ rs)) : l.at rs = l.tail ↔ rs = [] := by
  cases rs with
  | nil => simp
  | cons e rs =>
    have hnd := hl.nodup
    simp only [ListHeader.nodes, List.cons_append, List.append_assoc, List.nodup_cons, List.nodup_append] at hnd
    simp only [ListHeader.at_cons, reduceCtorEq, iff_false]
    rintro rfl
    simp at hnd

lemma isInterior (hl : IsList h l (ps ++ e :: rs)) : isInterior e h = true := by
  have he : e ≠ 0 := by simpa using hl.at_ne_zero
  have hprev : h.prev e ≠ 0 := by
    have hb := hl.before_ne_zero
    rwa [← hl.prev_at] at hb
  have hl' : IsList h l ((ps ++ [e]) ++ rs) := by simpa using hl
  have hnext : h.next e ≠ 0 := by
    rw [hl.next_of_cons]
    exact hl'.at_ne_zero
  simp [Library.isInterior, he, hprev, hnext]

lemma interior_or_tail (hl : IsList h l (ps ++ rs)) :
    (Library.isInterior (l.at rs) h || isTail (l.at rs) h) = true := by
  cases rs with
  | nil =>
    have hb := hl.before_ne_zero
    rw [← hl.prev_at] at hb
    have h0 := hl.at_ne_zero
    simp only [ListHeader.at_nil] at hb h0
    simp [isTail, hb, h0, hl.back]
  | cons e rs => simp [hl.isInterior]

lemma head_or_interior (hl : IsList h l (ps ++ rs)) :
    (isHead (l.before ps) h || Library.isInterior (l.before ps) h) = true := by
  rcases List.eq_nil_or_concat ps with rfl | ⟨qs, e, rfl⟩
  · have hn := hl.at_ne_zero
    rw [← hl.next_before] at hn
    have h0 := hl.before_ne_zero
    simp only [ListHeader.before_nil] at hn h0
    simp [isHead, hn, h0, hl.front]
  · have hl' : IsList h l (qs ++ e :: rs) := by simpa using hl
    simp [hl'.isInterior]

end IsList

/-! Runs of the primitive steps. -/

lemma assert_run {p : Links ℕ → Bool} (hp : p h = true) : assert p h = .ok ((), h) := by
  simp only [assert, bind_get, hp, if_true]
  rfl

lemma load_prev_run (he : e ≠ 0) : load (.prev e) h = .ok (h.prev e, h) := by
  rw [load, if_neg he]
  rfl

lemma load_next_run (he : e ≠ 0) : load (.next e) h = .ok (h.next e, h) := by
  rw [load, if_neg he]
  rfl

lemma store_prev_run (he : e ≠ 0) (v : ℕ) : store (.prev e) v h = .ok ((), h.setPrev e v) := by
  rw [store, if_neg he]
  rfl

lemma store_next_run (he : e ≠ 0) (v : ℕ) : store (.next e) v h = .ok ((), h.setNext e v) := by
  rw [store, if_neg he]
  rfl

namespace IsList

lemma listBegin_run (hl : IsList h l xs) : listBegin l h = .ok (l.at xs, h) := by
  have hl' : IsList h l ([] ++ xs) := hl
  have hhead : l.head ≠ 0 := by simpa using hl'.before_ne_zero
  rw [listBegin, load_next_run hhead]
  simpa using hl'.next_before

lemma listNext_run (hl : IsList h l (ps ++ e :: rs)) : listNext e h = .ok (l.at rs, h) := by
  have hl' : IsList h l ((ps ++ [e]) ++ rs) := by simpa using hl
  have hasserted := hl'.head_or_interior
  have he := hl'.before_ne_zero
  simp only [ListHeader.before_concat] at hasserted he
  rw [listNext, bind_ok (assert_run hasserted), load_next_run he, hl.next_of_cons]

lemma listPrev_run (hl : IsList h l (ps ++ rs)) : listPrev (l.at rs) h = .ok (l.before ps, h) := by
  rw [listPrev, bind_ok (assert_run hl.interior_or_tail), load_prev_run hl.at_ne_zero, hl.prev_at]

lemma listEmpty_run (hl : IsList h l xs) : listEmpty l h = .ok (decide (xs = []), h) := by
  have hl' : IsList h l ([] ++ xs) := hl
  rw [listEmpty, bind_ok hl.listBegin_run, pure_run]
  simp [listEnd, hl'.at_eq_tail_iff]

lemma frame (hl : IsList h l xs) {a b : ℕ} (ha : a ∉ l.nodes xs) (hb : b ∉ l.nodes xs) :
    IsList (h.connect a b) l xs where
  chain := (Links.chain_connect_iff (fun hm => ha (List.mem_of_mem_dropLast hm)) fun hm =>
    hb (List.mem_of_mem_tail hm)).mpr hl.chain
  nodup := hl.nodup
  nonnull := hl.nonnull
  front := by
    rw [Links.prev_connect, if_neg, hl.front]
    rintro rfl
    exact hb (by simp [ListHeader.nodes])
  back := by
    rw [Links.next_connect, if_neg, hl.back]
    rintro rfl
    exact ha (by simp [ListHeader.nodes])

lemma head_ne_at (hnd : (l.nodes (ps ++ rs)).Nodup) : l.head ≠ l.at rs := by
  intro heq
  have hpre : l.nodes (ps ++ rs) = l.head :: (ps ++ (rs ++ [l.tail])) := by simp [ListHeader.nodes]
  rw [hpre, List.nodup_cons] at hnd
  obtain ⟨cs, hcs⟩ := Links.exists_eq_headD_cons l.tail rs
  refine hnd.1 (List.mem_append_right _ ?_)
  rw [hcs, heq]
  exact List.mem_cons_self

lemma tail_ne_before (hnd : (l.nodes (ps ++ rs)).Nodup) : l.tail ≠ l.before ps := by
  intro heq
  have hpost : l.nodes (ps ++ rs) = (l.head :: ps) ++ rs ++ [l.tail] := by simp [ListHeader.nodes]
  rw [hpost] at hnd
  obtain ⟨cs, hcs⟩ := Links.exists_eq_append_getLastD l.head ps
  have hmem : l.tail ∈ l.head :: ps := by
    rw [hcs, heq]
    exact List.mem_append_right _ (by simp [ListHeader.before])
  exact List.disjoint_of_nodup_append hnd (List.mem_append_left _ hmem) (by simp)

lemma cut (hl : IsList h l (ps ++ ms ++ rs)) : IsList (h.connect (l.before ps) (l.at rs)) l (ps ++ rs) := by
  obtain ⟨as, bs, hsplit⟩ := l.nodes_split ps rs
  have hold := hsplit ms
  have hnew : l.nodes (ps ++ rs) = as ++ l.before ps :: l.at rs :: bs := by simpa using hsplit []
  have hnd := hl.nodup
  have hsub : (l.nodes (ps ++ rs)).Sublist (l.nodes (ps ++ ms ++ rs)) := by
    rw [hnew, hold]
    simp
  have hnd' := hnd.sublist hsub
  refine ⟨?_, hnd', fun h0 => hl.nonnull (hsub.subset h0), ?_, ?_⟩
  · rw [hnew]
    have hc := hl.chain
    rw [hold] at hc hnd
    exact hc.cut hnd
  · rw [Links.prev_connect, if_neg (head_ne_at hnd'), hl.front]
  · rw [Links.next_connect, if_neg (tail_ne_before hnd'), hl.back]

lemma chain_segment (hl : IsList h l (ps ++ ms ++ rs)) : (h.connect (l.before ps) (l.at rs)).Chain ms := by
  obtain ⟨as, bs, hsplit⟩ := l.nodes_split ps rs
  have hc := hl.chain
  have hnd := hl.nodup
  rw [hsplit ms] at hc hnd
  exact hc.segment hnd

lemma paste {a b : ℕ} {ns : List ℕ} (hl : IsList h l (ps ++ rs)) (hc : h.Chain ms) (hfirst : ms = a :: ns)
    (hlast : ms = ms.dropLast ++ [b]) (hnd : (l.nodes (ps ++ ms ++ rs)).Nodup) (h0 : 0 ∉ ms) :
    IsList ((h.connect (l.before ps) a).connect b (l.at rs)) l (ps ++ ms ++ rs) := by
  obtain ⟨as, bs, hsplit⟩ := l.nodes_split ps rs
  have hold : l.nodes (ps ++ rs) = as ++ l.before ps :: l.at rs :: bs := by simpa using hsplit []
  have hb : b ∈ ms := by
    rw [hlast]
    simp
  have hmem : ∀ x, x ∈ l.nodes (ps ++ ms ++ rs) ↔ x ∈ l.nodes (ps ++ rs) ∨ x ∈ ms := by
    intro x
    rw [hsplit ms, hold]
    simp only [List.mem_append, List.mem_cons]
    tauto
  have houter : ∀ x ∈ ms, x ∉ l.nodes (ps ++ rs) := by
    intro x hx hmem'
    rw [hsplit ms] at hnd
    rw [hold] at hmem'
    simp only [List.nodup_append, List.nodup_cons, List.mem_append, List.mem_cons] at hnd hmem'
    rcases hmem' with h₁ | rfl | h₁ | h₁
    · exact hnd.1.2.2 x h₁ x (.inr hx) rfl
    · exact hnd.1.2.1.1 hx
    · exact hnd.2.2 x (.inr (.inr hx)) x (.inl h₁) rfl
    · exact hnd.2.2 x (.inr (.inr hx)) x (.inr h₁) rfl
  refine ⟨?_, hnd, fun h0' => ((hmem 0).mp h0').elim hl.nonnull h0, ?_, ?_⟩
  · have hc' := hl.chain
    rw [hold] at hc'
    rw [hsplit ms] at hnd ⊢
    exact hc'.paste hc hfirst hlast hnd
  · have ha : l.head ≠ a := by
      rintro rfl
      exact houter l.head (by simp [hfirst]) (by simp [ListHeader.nodes])
    rw [Links.prev_connect, if_neg (head_ne_at hl.nodup), Links.prev_connect, if_neg ha, hl.front]
  · have hb' : l.tail ≠ b := by
      rintro rfl
      exact houter l.tail hb (by simp [ListHeader.nodes])
    rw [Links.next_connect, if_neg hb', Links.next_connect, if_neg (tail_ne_before hl.nodup), hl.back]

lemma listInsert_run (hl : IsList h l (ps ++ rs)) (he : e ≠ 0) (hout : e ∉ l.nodes (ps ++ rs)) :
    listInsert (l.at rs) e h = .ok ((), (h.connect (l.before ps) e).connect e (l.at rs)) := by
  have hs := hl.at_ne_zero
  have hp := hl.before_ne_zero
  have hes : l.at rs ≠ e := fun heq => hout (heq ▸ l.at_mem ps rs)
  have hep : e ≠ l.before ps := fun heq => hout (heq ▸ l.before_mem ps rs)
  have hassert : decide (e ≠ 0) = true := by simpa using he
  have hprev : ((h.setPrev e (l.before ps)).setNext e (l.at rs)).prev (l.at rs) = l.before ps := by
    simp [hes, hl.prev_at]
  rw [listInsert, bind_ok (assert_run hl.interior_or_tail), bind_ok (assert_run hassert),
    bind_ok (load_prev_run hs), hl.prev_at, bind_ok (store_prev_run he _), bind_ok (store_next_run he _),
    bind_ok (load_prev_run hs), hprev, bind_ok (store_next_run hp _), store_prev_run hs, Links.paste_eq h hep]

lemma listRemove_run (hl : IsList h l (ps ++ e :: rs)) :
    listRemove e h = .ok (l.at rs, h.connect (l.before ps) (l.at rs)) := by
  have hl' : IsList h l ((ps ++ [e]) ++ rs) := by simpa using hl
  have he : e ≠ 0 := by simpa using hl'.before_ne_zero
  have hs := hl'.at_ne_zero
  have hp := hl.before_ne_zero
  have hprev : h.prev e = l.before ps := by simpa using hl.prev_at
  have hnext := hl.next_of_cons
  have hnext' : (h.setNext (l.before ps) (l.at rs)).next e = l.at rs := by simp [hnext]
  have hprev' : (h.setNext (l.before ps) (l.at rs)).prev e = l.before ps := by simp [hprev]
  rw [listRemove, bind_ok (assert_run hl.isInterior), bind_ok (load_prev_run he), hprev,
    bind_ok (load_next_run he), hnext, bind_ok (store_next_run hp _), bind_ok (load_next_run he), hnext',
    bind_ok (load_prev_run he), hprev', bind_ok (store_prev_run hs _), load_next_run he]
  exact congrArg (fun x => Except.ok (x, h.connect (l.before ps) (l.at rs))) hnext'

end IsList

end CourseArchive.PintOS.Library
