import CourseArchive.Lib.NaturalMerge

/-! Lists with at most one element of each class, and tables that spread a list over numbered buckets. -/

namespace CourseArchive.Lib

variable {α : Type} {less : α → α → Bool} {xs ys : List α} {a b c e : α}

abbrev Distinct (less : α → α → Bool) (xs : List α) : Prop := xs.Pairwise fun a b => ¬equivalent less a b

def lookup (less : α → α → Bool) (e : α) (xs : List α) : Option α := xs.find? (equivalent less e)

def dropClass (less : α → α → Bool) (e : α) (xs : List α) : List α := xs.filter fun a => !equivalent less e a

lemma equivalent_comm (less : α → α → Bool) (a b : α) : equivalent less a b = equivalent less b a :=
  Bool.and_comm _ _

lemma Distinct.perm (hp : xs.Perm ys) (hx : Distinct less xs) : Distinct less ys :=
  hp.pairwise hx fun hab hba => hab (by rwa [equivalent_comm])

lemma Distinct.eq_of_equivalent (h : StrictWeakOrder less) (hx : Distinct less xs) (ha : a ∈ xs) (hb : b ∈ xs)
    (hea : equivalent less e a = true) (heb : equivalent less e b = true) : a = b := by
  by_contra hne
  have hsymm :
    Std.Symm fun a b => ¬equivalent less a b = true := ⟨fun a b hab hba => hab (by rwa [equivalent_comm])⟩
  exact hx.forall ha hb hne (h.equivalent_trans hea heb)

lemma lookup_eq_some_iff (h : StrictWeakOrder less) (hx : Distinct less xs) :
    lookup less e xs = some a ↔ a ∈ xs ∧ equivalent less e a = true := by
  constructor
  · intro hfind
    exact ⟨List.mem_of_find?_eq_some hfind, List.find?_some hfind⟩
  · rintro ⟨ha, hea⟩
    cases hfind : lookup less e xs with
    | none => exact absurd hea (List.find?_eq_none.mp hfind a ha)
    | some b =>
      rw [hx.eq_of_equivalent h (List.mem_of_find?_eq_some hfind) ha (List.find?_some hfind) hea]

lemma lookup_eq_none_iff : lookup less e xs = none ↔ ∀ a ∈ xs, ¬equivalent less e a = true := List.find?_eq_none

lemma lookup_perm (h : StrictWeakOrder less) (hp : xs.Perm ys) (hx : Distinct less xs) :
    lookup less e xs = lookup less e ys := by
  refine Option.ext fun a => ?_
  rw [lookup_eq_some_iff h hx, lookup_eq_some_iff h (hx.perm hp), hp.mem_iff]

lemma dropClass_of_lookup_none (hn : lookup less e xs = none) : dropClass less e xs = xs := by
  refine List.filter_eq_self.mpr fun a ha => ?_
  simpa using lookup_eq_none_iff.mp hn a ha

lemma perm_cons_dropClass (h : StrictWeakOrder less) (hx : Distinct less xs) (hs : lookup less e xs = some a) :
    xs.Perm (a :: dropClass less e xs) := by
  obtain ⟨ha, hea⟩ := (lookup_eq_some_iff h hx).mp hs
  obtain ⟨ps, qs, rfl⟩ := List.append_of_mem ha
  have hp : (ps ++ a :: qs).Perm (a :: (ps ++ qs)) := List.perm_middle
  obtain ⟨hhead, -⟩ := List.pairwise_cons.mp (hx.perm hp)
  have hrest : dropClass less e (ps ++ qs) = ps ++ qs := by
    refine List.filter_eq_self.mpr fun b hb => ?_
    have hab := hhead b hb
    simp only [Bool.not_eq_true', Bool.not_eq_true] at hab ⊢
    by_contra heb
    have heq := h.equivalent_trans hea (by simpa using heb)
    simp [hab] at heq
  have hdrop : dropClass less e (ps ++ a :: qs) = ps ++ qs := by
    rw [← hrest]
    simp [dropClass, List.filter_append, hea]
  rw [hdrop]
  exact hp

lemma Distinct.dropClass (hx : Distinct less xs) : Distinct less (dropClass less e xs) := List.Pairwise.filter _ hx

/-! Buckets. -/

variable {n i : ℕ} {f : ℕ → List α} {place : α → ℕ} {es : List α}

abbrev spread (n : ℕ) (f : ℕ → List α) : List α := (List.range n).flatMap f

lemma spread_update (hi : i < n) (f : ℕ → List α) (es : List α) :
    (f i ++ spread n (Function.update f i es)).Perm (es ++ spread n f) := by
  induction n with
  | zero => omega
  | succ n ih =>
    simp only [spread, List.range_succ, List.flatMap_append, List.flatMap_cons, List.flatMap_nil, List.append_nil]
    rcases Nat.lt_succ_iff_lt_or_eq.mp hi with hlt | rfl
    · rw [Function.update_of_ne hlt.ne', ← List.append_assoc, ← List.append_assoc]
      exact (ih hlt).append_right _
    · have hsame : (List.range i).flatMap (Function.update f i es) = (List.range i).flatMap f := by
        refine List.flatMap_congr fun j hj => ?_
        rw [Function.update_of_ne (List.mem_range.mp hj).ne]
      rw [Function.update_self, hsame]
      calc (f i ++ ((List.range i).flatMap f ++ es)).Perm (((List.range i).flatMap f ++ es) ++ f i) :=
        List.perm_append_comm
        _ = (List.range i).flatMap f ++ (es ++ f i) := List.append_assoc _ _ _
        _ |>.Perm (es ++ ((List.range i).flatMap f ++ f i)) := by
          rw [← List.append_assoc, ← List.append_assoc]
          exact List.perm_append_comm.append_right _

lemma spread_push (hi : i < n) (f : ℕ → List α) (e : α) :
    (spread n (Function.update f i (e :: f i))).Perm (e :: spread n f) := by
  have hp := spread_update hi f (e :: f i)
  refine (List.perm_append_left_iff (f i)).mp (hp.trans ?_)
  exact List.perm_middle.symm

def push (place : α → ℕ) (f : ℕ → List α) (e : α) : ℕ → List α := Function.update f (place e) (e :: f (place e))

lemma spread_foldl_push (hplace : ∀ e ∈ es, place e < n) (f : ℕ → List α) :
    (spread n (es.foldl (push place) f)).Perm (es ++ spread n f) := by
  induction es generalizing f with
  | nil => exact List.Perm.refl _
  | cons e es ih =>
    have htail := ih (fun a ha => hplace a (List.mem_cons_of_mem _ ha)) (push place f e)
    refine htail.trans ?_
    refine ((spread_push (hplace e List.mem_cons_self) f e).append_left es).trans ?_
    exact List.perm_middle

lemma mem_foldl_push (hf : ∀ i, ∀ a ∈ f i, place a = i) : ∀ i, ∀ a ∈ es.foldl (push place) f i, place a = i := by
  induction es generalizing f with
  | nil => exact hf
  | cons e es ih =>
    refine ih fun i a ha => ?_
    by_cases hi : i = place e
    · subst hi
      rw [push, Function.update_self] at ha
      rcases List.mem_cons.mp ha with rfl | ha
      · rfl
      · exact hf _ a ha
    · rw [push, Function.update_of_ne hi] at ha
      exact hf i a ha

end CourseArchive.Lib
