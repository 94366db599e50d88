import CourseArchive.PintOS.Library.ListSort

/-! Runs of list operations: the links in memory stand for a family of lists, and each operation does to the family
what its description says. -/

namespace CourseArchive.PintOS.Library

open Lib

structure Lists where
  live : Finset ListHeader
  items : ListHeader → List ℕ

/-- The operations. Where one takes elements of a list, the parts of the list on the two sides of the cursor say
which. -/
inductive ListOp
  | init (l : ListHeader)
  | insert (l : ListHeader) (ps rs : List ℕ) (e : ℕ)
  | splice (l l' : ListHeader) (ps ms rs qs ts : List ℕ)
  | pushFront (l : ListHeader) (e : ℕ)
  | pushBack (l : ListHeader) (e : ℕ)
  | remove (l : ListHeader) (ps : List ℕ) (e : ℕ) (rs : List ℕ)
  | popFront (l : ListHeader)
  | popBack (l : ListHeader)
  | front (l : ListHeader)
  | back (l : ListHeader)
  | size (l : ListHeader)
  | empty (l : ListHeader)
  | reverse (l : ListHeader)
  | sort (l : ListHeader) (less : ℕ → ℕ → Bool)
  | insertOrdered (l : ListHeader) (e : ℕ) (less : ℕ → ℕ → Bool)
  | unique (l : ListHeader) (duplicates : Option ListHeader) (less : ℕ → ℕ → Bool)
  | max (l : ListHeader) (less : ℕ → ℕ → Bool)
  | min (l : ListHeader) (less : ℕ → ℕ → Bool)

namespace ListOp

def run (turns : ℕ) : ListOp → ListM ℕ
  | init l => do listInit l; return 0
  | insert l _ rs e => do listInsert (l.at rs) e; return 0
  | splice l l' _ ms rs _ ts => do listSplice (l'.at ts) (l.at (ms ++ rs)) (l.at rs); return 0
  | pushFront l e => do listPushFront l e; return 0
  | pushBack l e => do listPushBack l e; return 0
  | remove _ _ e _ => listRemove e
  | popFront l => listPopFront l
  | popBack l => listPopBack l
  | front l => listFront l
  | back l => listBack l
  | size l => listSize turns l
  | empty l => do return (← listEmpty l).toNat
  | reverse l => do listReverse turns l; return 0
  | sort l less => do listSort less turns l; return 0
  | insertOrdered l e less => do listInsertOrdered less turns l e; return 0
  | unique l duplicates less => do listUnique less turns l duplicates; return 0
  | max l less => listMax less turns l
  | min l less => listMin less turns l

def Allowed (s : Lists) : ListOp → Prop
  | init l => l ∉ s.live ∧ Apart s.live s.items [l.head, l.tail]
  | insert l ps rs e => l ∈ s.live ∧ s.items l = ps ++ rs ∧ Apart s.live s.items [e]
  | splice l l' ps ms rs qs ts =>
    l ∈ s.live ∧ s.items l = ps ++ ms ++ rs ∧ l' ∈ s.live ∧ Function.update s.items l (ps ++ rs) l' = qs ++ ts
  | pushFront l e => l ∈ s.live ∧ Apart s.live s.items [e]
  | pushBack l e => l ∈ s.live ∧ Apart s.live s.items [e]
  | remove l ps e rs => l ∈ s.live ∧ s.items l = ps ++ e :: rs
  | popFront l => l ∈ s.live ∧ s.items l ≠ []
  | popBack l => l ∈ s.live ∧ s.items l ≠ []
  | front l => l ∈ s.live ∧ s.items l ≠ []
  | back l => l ∈ s.live ∧ s.items l ≠ []
  | size l => l ∈ s.live
  | empty l => l ∈ s.live
  | reverse l => l ∈ s.live
  | sort l less => l ∈ s.live ∧ StrictWeakOrder less
  | insertOrdered l e _ => l ∈ s.live ∧ Apart s.live s.items [e]
  | unique l duplicates _ => l ∈ s.live ∧ ∀ d ∈ duplicates, d ∈ s.live ∧ d ≠ l
  | max l _ => l ∈ s.live
  | min l _ => l ∈ s.live

def set (s : Lists) (l : ListHeader) (xs : List ℕ) : Lists := { s with items := Function.update s.items l xs }

def apply (s : Lists) : ListOp → ℕ × Lists
  | init l => (0, ⟨Insert.insert l s.live, Function.update s.items l []⟩)
  | insert l ps rs e => (0, set s l (ps ++ e :: rs))
  | splice l l' ps ms rs qs ts => (0, set (set s l (ps ++ rs)) l' (qs ++ ms ++ ts))
  | pushFront l e => (0, set s l (e :: s.items l))
  | pushBack l e => (0, set s l (s.items l ++ [e]))
  | remove l ps _ rs => (l.at rs, set s l (ps ++ rs))
  | popFront l => ((s.items l).headD 0, set s l (s.items l).tail)
  | popBack l => ((s.items l).getLastD 0, set s l (s.items l).dropLast)
  | front l => ((s.items l).headD 0, s)
  | back l => ((s.items l).getLastD 0, s)
  | size l => ((s.items l).length, s)
  | empty l => ((s.items l).isEmpty.toNat, s)
  | reverse l => (0, set s l (s.items l).reverse)
  | sort l less => (0, set s l ((s.items l).mergeSort (noLater less)))
  | insertOrdered l e less => (0, set s l (Library.insertOrdered less e (s.items l)))
  | unique l duplicates less => (0, ⟨s.live, uniqued less s.items l duplicates⟩)
  | max l less => (best less l (s.items l), s)
  | min l less => (best (fun found e => less e found) l (s.items l), s)

def walked : ListOp → Option ListHeader
  | size l | reverse l | sort l _ | insertOrdered l _ _ | unique l _ _ | max l _ | min l _ => some l
  | _ => none

end ListOp

variable {h : Links ℕ} {s : Lists} {L : Finset ListHeader} {f : ListHeader → List ℕ} {l : ListHeader} {turns : ℕ}

lemma Holds.listInit (hh : Holds h L f) (hnew : l ∉ L) (hap : Apart L f [l.head, l.tail]) :
    Returns (listInit l) h fun _ h' => Holds h' (Insert.insert l L) (Function.update f l []) := by
  have hne : l.head ≠ l.tail := by simpa using hap.nodup
  have hh0 : l.head ≠ 0 := fun h0 => hap.nonnull (by simp [h0])
  have ht0 : l.tail ≠ 0 := fun h0 => hap.nonnull (by simp [h0])
  refine Returns.after (store_prev_run hh0 0)
    (Returns.after (store_next_run hh0 _) (Returns.after (store_prev_run ht0 _)
    ⟨_, _, store_next_run ht0 0, ?_⟩))
  have hold : ∀ k ∈ L, k ≠ l := fun k hk hkl => hnew (hkl ▸ hk)
  have hout : ∀ k ∈ L, (k.nodes (f k)).Disjoint (l.nodes []) := hap.outside
  refine ⟨fun k hk => ?_, fun k hk k' hk' hkk => ?_⟩
  · rcases Finset.mem_insert.mp hk with rfl | hk
    · rw [Function.update_self]
      refine ⟨?_, by simpa [ListHeader.nodes] using hne, by
        simpa [ListHeader.nodes] using ⟨hh0.symm, ht0.symm⟩, ?_, ?_⟩
      · simp [ListHeader.nodes, Links.Chain, Links.Joined, hne]
      · simp [hne]
      · simp
    · rw [Function.update_of_ne (hold k hk)]
      refine (hh.isList k hk).congr fun x hx => ?_
      have hx' : x ≠ l.head ∧ x ≠ l.tail := by simpa [ListHeader.nodes] using hout k hk hx
      simp [hx']
  · rcases Finset.mem_insert.mp hk with rfl | hk
    · rcases Finset.mem_insert.mp hk' with rfl | hk'
      · exact absurd rfl hkk
      · rw [Function.update_self, Function.update_of_ne (hold k' hk')]
        exact (hout k' hk').symm
    · rcases Finset.mem_insert.mp hk' with rfl | hk'
      · rw [Function.update_self, Function.update_of_ne hkk]
        exact hout k (Finset.mem_of_mem_insert_of_ne hk hkk)
      · rw [Function.update_of_ne (hold k hk), Function.update_of_ne (hold k' hk')]
        exact hh.disjoint k hk k' hk' hkk

def Refines (s : Lists) (op : ListOp) (h : Links ℕ) (turns : ℕ) : Prop :=
  Returns (op.run turns) h fun r h' => r = (op.apply s).1 ∧ Holds h' (op.apply s).2.live (op.apply s).2.items

lemma Returns.result {α β : Type} {m : ListM α} {b : β} {P : Links ℕ → Prop}
    (hm : Returns m h fun _ h' => P h') : Returns (m >>= fun _ => pure b) h fun r h' => r = b ∧ P h' :=
  hm.bind fun _ _ hp => Returns.pure ⟨rfl, hp⟩

lemma refines_of_allowed (op : ListOp) (hh : Holds h s.live s.items) (ha : op.Allowed s)
    (ht : ∀ l ∈ op.walked, (s.items l).length < turns) : Refines s op h turns := by
  cases op with
  | init l => exact Returns.result (hh.listInit ha.1 ha.2)
  | insert l ps rs e => exact Returns.result (hh.insert ha.1 ha.2.1 ha.2.2)
  | splice l l' ps ms rs qs ts =>
    obtain ⟨hl, hf, hl', hf'⟩ := ha
    cases ms with
    | nil =>
      refine Returns.result (P := fun h' => Holds h' s.live _) ?_
      rw [List.append_nil] at hf
      have hcur : s.items l' = qs ++ ts := by rwa [← hf, Function.update_eq_self] at hf'
      have hassert := (hcur ▸ hh.isList l' hl').interior_or_tail
      refine Returns.after (assert_run hassert) ?_
      rw [List.nil_append, if_pos rfl]
      refine Returns.pure ?_
      simp only [ListOp.apply, ListOp.set]
      rw [← hf, Function.update_eq_self, List.append_nil, ← hcur, Function.update_eq_self]
      exact hh
    | cons a ns => exact Returns.result (hh.splice hl hf rfl hl' hf')
  | pushFront l e => exact Returns.result (hh.pushFront ha.1 ha.2)
  | pushBack l e => exact Returns.result (hh.pushBack ha.1 ha.2)
  | remove l ps e rs => exact hh.remove ha.1 ha.2
  | popFront l =>
    obtain ⟨e, rs, hf⟩ := List.exists_cons_of_ne_nil ha.2
    have hpop := hh.popFront ha.1 hf
    simp only [Refines, ListOp.apply, hf, List.headD_cons, List.tail_cons]
    exact hpop
  | popBack l =>
    obtain ⟨ps, e, hf⟩ : ∃ ps e, s.items l = ps ++ [e] := ⟨_, _, (List.dropLast_append_getLast ha.2).symm⟩
    have hpop := hh.popBack ha.1 hf
    simp only [Refines, ListOp.apply, hf, List.getLastD_concat, List.dropLast_concat]
    exact hpop
  | front l =>
    obtain ⟨e, rs, hf⟩ := List.exists_cons_of_ne_nil ha.2
    exact ⟨e, h, (hf ▸ hh.isList l ha.1).listFront_run, by simp [ListOp.apply, hf], hh⟩
  | back l =>
    obtain ⟨ps, e, hf⟩ : ∃ ps e, s.items l = ps ++ [e] := ⟨_, _, (List.dropLast_append_getLast ha.2).symm⟩
    exact ⟨e, h, (hf ▸ hh.isList l ha.1).listBack_run, by simp [ListOp.apply, hf], hh⟩
  | size l =>
    refine ((hh.isList l ha).listSize (ht l rfl)).mono ?_
    rintro _ _ ⟨rfl, rfl⟩
    exact ⟨rfl, hh⟩
  | empty l =>
    refine Returns.after (hh.isList l ha).listEmpty_run (Returns.pure ⟨?_, hh⟩)
    cases hf : s.items l <;> simp [ListOp.apply, hf]
  | reverse l => exact Returns.result (hh.listReverse ha (ht l rfl))
  | sort l less => exact Returns.result (hh.listSort ha.2 ha.1 (ht l rfl))
  | insertOrdered l e less => exact Returns.result (hh.listInsertOrdered ha.1 ha.2 (ht l rfl))
  | unique l duplicates less => exact Returns.result (hh.listUnique ha.1 ha.2 (ht l rfl))
  | max l less =>
    refine ((hh.isList l ha).listBest (ht l rfl)).mono ?_
    rintro _ _ ⟨rfl, rfl⟩
    exact ⟨rfl, hh⟩
  | min l less =>
    have hbest :
      Returns (listMin less turns l) h fun r h' => r = best (fun found e => less e found) l (s.items l) ∧ h' = h :=
      (hh.isList l ha).listBest (ht l rfl)
    refine hbest.mono ?_
    rintro _ _ ⟨rfl, rfl⟩
    exact ⟨rfl, hh⟩

def AllAllowed : Lists → List ListOp → Prop
  | _, [] => True
  | s, op :: ops => op.Allowed s ∧ AllAllowed (op.apply s).2 ops

def applyAll : Lists → List ListOp → List ℕ × Lists
  | s, [] => ([], s)
  | s, op :: ops => (applyAll (op.apply s).2 ops).map ((op.apply s).1 :: ·) id

def runAll (turns : ℕ) : List ListOp → ListM (List ℕ)
  | [] => return []
  | op :: ops => do
    let r ← op.run turns
    return r :: (← runAll turns ops)

/-- In every run of allowed operations no assertion of `list.c` fails, no null pointer is used and no loop goes on
for ever: each call returns the result of the operation on the lists, and the links in memory stand for the lists
that come out. -/
theorem runAll_refines (ops : List ListOp) (s : Lists) (ha : AllAllowed s ops) :
    ∃ bound, ∀ turns ≥ bound, ∀ h, Holds h s.live s.items → Returns (runAll turns ops) h fun rs h' =>
      rs = (applyAll s ops).1 ∧ Holds h' (applyAll s ops).2.live (applyAll s ops).2.items := by
  induction ops generalizing s with
  | nil => exact ⟨0, fun turns _ h hh => Returns.pure ⟨rfl, hh⟩⟩
  | cons op ops ih =>
    obtain ⟨bound, hbound⟩ := ih (op.apply s).2 ha.2
    refine ⟨max bound ((op.walked.elim 0 fun l => (s.items l).length) + 1), fun turns hturns h hh => ?_⟩
    have hfirst : Refines s op h turns := by
      refine refines_of_allowed op hh ha.1 fun l hl => ?_
      rw [hl] at hturns
      simp only [Option.elim_some, ge_iff_le, sup_le_iff] at hturns
      omega
    refine hfirst.bind ?_
    rintro _ h' ⟨rfl, hh'⟩
    refine (hbound turns (le_of_max_le_left hturns) h' hh').bind ?_
    rintro _ h'' ⟨rfl, hh''⟩
    exact Returns.pure ⟨rfl, hh''⟩

theorem runAll_refines_reversed : ∃ bound, ∀ turns ≥ bound, ∀ h, Holds h ∅ (fun _ => []) →
    Returns (runAll turns [.init ⟨10, 18⟩, .pushBack ⟨10, 18⟩ 40, .pushFront ⟨10, 18⟩ 70, .reverse ⟨10, 18⟩,
      .popBack ⟨10, 18⟩]) h fun rs _ => rs = [0, 0, 0, 0, 70] := by
  obtain ⟨bound, hbound⟩ := runAll_refines [.init ⟨10, 18⟩, .pushBack ⟨10, 18⟩ 40, .pushFront ⟨10, 18⟩ 70,
    .reverse ⟨10, 18⟩, .popBack ⟨10, 18⟩] ⟨∅, fun _ => []⟩
    (by simp [AllAllowed, ListOp.Allowed, ListOp.apply, ListOp.set, apart_iff, ListHeader.nodes])
  exact ⟨bound, fun turns ht h hh => (hbound turns ht h hh).mono fun rs _ hr => by
    simpa [applyAll, ListOp.apply, ListOp.set] using hr.1⟩

/-- `list_sort` sorts in place and keeps elements that the comparison does not tell apart in their order; all other
lists stay as they are. -/
theorem listSort_stable {less : ℕ → ℕ → Bool} (horder : StrictWeakOrder less) (hh : Holds h L f) (hl : l ∈ L)
    (ht : (f l).length < turns) :
    Returns (listSort less turns l) h fun _ h' => ∃ ys, Holds h' L (Function.update f l ys) ∧ ys.Perm (f l) ∧
      (ys.Pairwise fun a b => less b a = false) ∧
      ∀ c, ys.filter (fun a => !less c a && !less a c) = (f l).filter fun a => !less c a && !less a c := by
  refine (hh.listSort horder hl ht).mono fun _ h' hh' => ⟨_, hh', List.mergeSort_perm _ _, ?_, fun c => ?_⟩
  · exact (ordered_mergeSort horder (f l)).imp fun hab => by simpa [noLater] using hab
  · exact sameClasses_mergeSort horder (f l) c

theorem listSort_stable_backwards : Returns (listSort (fun a b => decide (b < a)) 4 ⟨10, 18⟩)
    (((((⟨fun _ => 0, fun _ => 0⟩ : Links ℕ).connect 10 5).connect 5 7).connect 7 6).connect 6 18) fun _ h' =>
      ∃ ys, Holds h' {⟨10, 18⟩} (Function.update (fun _ => [5, 7, 6]) ⟨10, 18⟩ ys) ∧ ys.Perm [5, 7, 6] ∧
        (ys.Pairwise fun a b => decide (a < b) = false) ∧
        ∀ c, ys.filter (fun a => !decide (a < c) && !decide (c < a)) =
          [5, 7, 6].filter fun a => !decide (a < c) && !decide (c < a) := by
  have horder : StrictWeakOrder fun a b : ℕ => decide (b < a) := by
    refine ⟨by simp, fun a b c hab hbc => ?_, fun a b c hac => ?_⟩
    · simp only [decide_eq_true_eq] at *
      omega
    · simp only [decide_eq_true_eq] at *
      omega
  have hlist :
    IsList (((((⟨fun _ => 0, fun _ => 0⟩ : Links ℕ).connect 10 5).connect 5 7).connect 7 6).connect 6 18)
      ⟨10, 18⟩ [5, 7, 6] :=
    ⟨by simp [ListHeader.nodes, Links.Chain, Links.Joined, Links.next_connect, Links.prev_connect], by
      decide, by decide, by decide, by decide⟩
  have hholds :
    Holds (((((⟨fun _ => 0, fun _ => 0⟩ : Links ℕ).connect 10 5).connect 5 7).connect 7 6).connect 6 18)
      {⟨10, 18⟩} fun _ => [5, 7, 6] := by
    refine ⟨fun k hk => ?_, fun k hk k' hk' hne => ?_⟩
    · rwa [Finset.mem_singleton.mp hk]
    · rw [Finset.mem_singleton.mp hk, Finset.mem_singleton.mp hk'] at hne
      exact absurd rfl hne
  exact listSort_stable horder hholds (Finset.mem_singleton_self _) (Nat.lt_succ_self 3)

end CourseArchive.PintOS.Library
