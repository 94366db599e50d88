import Mathlib.Tactic

/-! Doubly linked chains: what setting one pair of links does to the chains of a store. -/

namespace CourseArchive.Lib

structure Links (α : Type*) where
  prev : α → α
  next : α → α

namespace Links

variable {α : Type*} {h : Links α} {a b : α} {xs ys zs : List α}

def Joined (h : Links α) (a b : α) : Prop := h.next a = b ∧ h.prev b = a

abbrev Chain (h : Links α) (xs : List α) : Prop := xs.IsChain h.Joined

lemma Chain.left (hc : h.Chain (xs ++ ys)) : h.Chain xs := (List.isChain_append.mp hc).1

lemma Chain.right (hc : h.Chain (xs ++ ys)) : h.Chain ys := (List.isChain_append.mp hc).2.1

lemma Chain.joined (hc : h.Chain (xs ++ a :: b :: ys)) : h.Joined a b := by
  have hr := hc.right
  exact (List.isChain_cons_cons.mp hr).1

lemma Chain.reverse {g : Links α} (hc : h.Chain xs) (hnext : ∀ x ∈ xs, g.next x = h.prev x)
    (hprev : ∀ x ∈ xs, g.prev x = h.next x) : g.Chain xs.reverse := by
  rw [Chain, List.isChain_reverse]
  refine List.IsChain.imp_of_mem_imp ?_ hc
  intro x y hx hy hxy
  exact ⟨by rw [hnext y hy, hxy.2], by rw [hprev x hx, hxy.1]⟩

lemma exists_eq_append_getLastD (a : α) (xs : List α) : ∃ as, a :: xs = as ++ [xs.getLastD a] := by
  rcases List.eq_nil_or_concat xs with rfl | ⟨ys, y, rfl⟩
  · exact ⟨[], rfl⟩
  · exact ⟨a :: ys, by simp⟩

lemma exists_eq_headD_cons (b : α) (ys : List α) : ∃ bs, ys ++ [b] = ys.headD b :: bs := by
  cases ys with
  | nil => exact ⟨[], rfl⟩
  | cons y ys => exact ⟨ys ++ [b], rfl⟩

/-! Cutting a segment out of a chain and pasting one in. -/

variable [DecidableEq α]

def setNext (h : Links α) (a b : α) : Links α := { h with next := Function.update h.next a b }

def setPrev (h : Links α) (b a : α) : Links α := { h with prev := Function.update h.prev b a }

def connect (h : Links α) (a b : α) : Links α := (h.setNext a b).setPrev b a

@[simp] lemma next_setNext (h : Links α) (a b x : α) : (h.setNext a b).next x = if x = a then b else h.next x :=
  Function.update_apply ..

@[simp] lemma prev_setNext (h : Links α) (a b : α) : (h.setNext a b).prev = h.prev := rfl

@[simp] lemma next_setPrev (h : Links α) (b a : α) : (h.setPrev b a).next = h.next := rfl

@[simp] lemma prev_setPrev (h : Links α) (b a x : α) : (h.setPrev b a).prev x = if x = b then a else h.prev x :=
  Function.update_apply ..

lemma setNext_comm (h : Links α) {a c : α} (hac : a ≠ c) (b d : α) :
    (h.setNext a b).setNext c d = (h.setNext c d).setNext a b := by
  simp only [setNext, Function.update_comm hac]

lemma setPrev_comm (h : Links α) {a c : α} (hac : a ≠ c) (b d : α) :
    (h.setPrev a b).setPrev c d = (h.setPrev c d).setPrev a b := by
  simp only [setPrev, Function.update_comm hac]

lemma paste_eq (h : Links α) {b p : α} (hbp : b ≠ p) (a s : α) :
    (((h.setPrev a p).setNext b s).setNext p a).setPrev s b = (h.connect p a).connect b s := by
  rw [setNext_comm _ hbp]
  rfl

lemma next_connect (h : Links α) (a b x : α) : (h.connect a b).next x = if x = a then b else h.next x := by
  simp [connect]

lemma prev_connect (h : Links α) (a b x : α) : (h.connect a b).prev x = if x = b then a else h.prev x := by
  simp [connect]

lemma joined_connect (h : Links α) (a b : α) : (h.connect a b).Joined a b := by
  simp [Joined, connect]

lemma joined_connect_of_ne {x y : α} (hx : x ≠ a) (hy : y ≠ b) : (h.connect a b).Joined x y ↔ h.Joined x y := by
  simp [Joined, connect, hx, hy]

lemma chain_connect_iff (ha : a ∉ xs.dropLast) (hb : b ∉ xs.tail) : (h.connect a b).Chain xs ↔ h.Chain xs := by
  -- only the pair that is set changes: a chain keeps its links when `a` has no successor in it and `b` no
  -- predecessor
  induction xs with
  | nil => simp
  | cons x xs ih =>
    cases xs with
    | nil => simp
    | cons y ys =>
      simp only [List.dropLast_cons_cons, List.mem_cons, not_or, List.tail_cons] at ha hb
      have hys : b ∉ (y :: ys).tail := hb.2
      simp only [Chain, List.isChain_cons_cons, joined_connect_of_ne (Ne.symm ha.1) (Ne.symm hb.1)] at ih ⊢
      rw [ih ha.2 hys]

lemma Chain.join (hx : h.Chain (xs ++ [a])) (hy : h.Chain (b :: ys)) (hnd : (xs ++ a :: b :: ys).Nodup) :
    (h.connect a b).Chain (xs ++ a :: b :: ys) := by
  have hsplit : xs ++ a :: b :: ys = (xs ++ [a]) ++ b :: ys := by simp
  rw [hsplit] at hnd ⊢
  obtain ⟨hnx, hny, hdisj⟩ := List.nodup_append.mp hnd
  refine List.IsChain.append ?_ ?_ ?_
  · refine (chain_connect_iff ?_ ?_).mpr hx
    · simpa using fun ha => List.disjoint_of_nodup_append hnx ha (by simp)
    · exact fun hb => hdisj b (List.mem_of_mem_tail hb) b (by simp) rfl
  · refine (chain_connect_iff ?_ ?_).mpr hy
    · exact fun ha => hdisj a (by simp) a (List.mem_of_mem_dropLast ha) rfl
    · exact (List.nodup_cons.mp hny).1
  · simpa using joined_connect h a b

variable {p s : α}

lemma Chain.cut (hc : h.Chain (xs ++ p :: zs ++ s :: ys)) (hnd : (xs ++ p :: zs ++ s :: ys).Nodup) :
    (h.connect p s).Chain (xs ++ p :: s :: ys) := by
  have hxp : h.Chain (xs ++ [p]) := by
    have hcut : xs ++ p :: zs ++ s :: ys = (xs ++ [p]) ++ (zs ++ s :: ys) := by simp
    rw [hcut] at hc
    exact hc.left
  refine hxp.join hc.right (hnd.sublist ?_)
  simp

lemma Chain.segment (hc : h.Chain (xs ++ p :: zs ++ s :: ys)) (hnd : (xs ++ p :: zs ++ s :: ys).Nodup) :
    (h.connect p s).Chain zs := by
  have hzs : h.Chain zs := by
    have hcut : xs ++ p :: zs ++ s :: ys = ((xs ++ [p]) ++ zs) ++ s :: ys := by simp
    rw [hcut] at hc
    exact hc.left.right
  have hmem : p ∉ zs ∧ s ∉ zs := by
    simp only [List.nodup_append, List.nodup_cons, List.mem_append, List.mem_cons] at hnd
    exact ⟨fun hp => hnd.1.2.1.1 hp, fun hs => hnd.2.2 s (.inr (.inr hs)) s (.inl rfl) rfl⟩
  exact (chain_connect_iff (fun hp => hmem.1 (List.mem_of_mem_dropLast hp))
    fun hs => hmem.2 (List.mem_of_mem_tail hs)).mpr hzs

lemma Chain.paste {ms : List α} (hc : h.Chain (xs ++ p :: s :: ys)) (hz : h.Chain zs) (hfirst : zs = a :: ms)
    (hlast : zs = zs.dropLast ++ [b]) (hnd : (xs ++ p :: zs ++ s :: ys).Nodup) :
    ((h.connect p a).connect b s).Chain (xs ++ p :: zs ++ s :: ys) := by
  have hstart : h.Chain (xs ++ [p]) := by
    have hcut : xs ++ p :: s :: ys = (xs ++ [p]) ++ s :: ys := by simp
    rw [hcut] at hc
    exact hc.left
  have hend : h.Chain (s :: ys) := by
    have hcut : xs ++ p :: s :: ys = (xs ++ [p]) ++ s :: ys := by simp
    rw [hcut] at hc
    exact hc.right
  have hnd' := hnd
  simp only [List.nodup_append, List.nodup_cons, List.mem_append, List.mem_cons] at hnd'
  have hfront : (h.connect p a).Chain (xs ++ p :: zs) := by
    subst hfirst
    exact hstart.join hz (hnd.sublist (List.sublist_append_left _ _))
  have hback : (h.connect p a).Chain (s :: ys) := by
    refine (chain_connect_iff (fun hp => ?_) fun ha => ?_).mpr hend
    · exact hnd'.2.2 p (.inr (.inl rfl)) p (by simpa using List.mem_of_mem_dropLast hp) rfl
    · exact hnd'.2.2 a (.inr (.inr (by simp [hfirst]))) a (.inr ha) rfl
  rw [hlast] at hfront hnd ⊢
  have hassoc : xs ++ p :: (zs.dropLast ++ [b]) ++ s :: ys = (xs ++ p :: zs.dropLast) ++ b :: s :: ys := by simp
  rw [hassoc] at hnd ⊢
  exact Chain.join (by simpa using hfront) hback hnd

end Links

end CourseArchive.Lib
